import VehicleRelay.TimestampTable

/-!
# The order of stamps

The stamps that one key has one after the other are ordered.  A later stamp is
the same one, or it has a later external time and a later local time.  Only the
end of time may be the local time of several external times.
-/

namespace VehicleRelay

instance int64LawfulOrderMax : Std.LawfulOrderMax Int64 :=
  .of_max_le_iff
    (fun left right bound => by
      change (if left ≤ right then right else left) ≤ bound ↔ _
      split <;> grind)
    (by
      intro left right
      change (if left ≤ right then right else left) = left ∨
        (if left ≤ right then right else left) = right
      split <;> simp)

/-- The next later time is later, except at the end of time. -/
theorem laterTime_progresses (time : Int64) :
    time < laterTime time ∨
      time = Int64.maxValue ∧ laterTime time = Int64.maxValue := by
  by_cases last : time = Int64.maxValue
  · right
    exact ⟨last, by simp [laterTime, last]⟩
  · left
    have notLast : time.toInt ≠ Int64.maxValue.toInt :=
      fun same => last (Int64.toInt_inj.mp same)
    have upper := Int64.toInt_le time
    have lower := Int64.le_toInt time
    rw [laterTime, if_neg last, Int64.lt_iff_toInt_lt, Int64.toInt_add,
      Int64.toInt_one, Int.bmod_def]
    simp only [Int64.toInt_maxValue] at notLast upper
    omega

namespace Stamp

/-- How the stamps of one key follow each other. -/
structure Precedes (earlier later : Stamp) : Prop where
  external_le : earlier.external ≤ later.external
  replayed : earlier.external = later.external →
    earlier.localTime = later.localTime
  progressed : earlier.external < later.external →
    earlier.localTime < later.localTime ∨
      earlier.localTime = Int64.maxValue ∧ later.localTime = Int64.maxValue

namespace Precedes

theorem refl (stamp : Stamp) : stamp.Precedes stamp where
  external_le := Std.le_refl _
  replayed _ := rfl
  progressed later := absurd later Std.lt_irrefl

theorem trans {first second third : Stamp}
    (left : first.Precedes second) (right : second.Precedes third) :
    first.Precedes third where
  external_le := Std.le_trans left.external_le right.external_le
  replayed same := by
    have secondSame : first.external = second.external := by
      apply Std.le_antisymm left.external_le
      simpa [same] using right.external_le
    exact (left.replayed secondSame).trans
      (right.replayed (secondSame.symm.trans same))
  progressed later := by
    rcases Int64.lt_or_eq_of_le left.external_le with leftLater | leftSame
    · rcases Int64.lt_or_eq_of_le right.external_le with rightLater | rightSame
      · rcases left.progressed leftLater with leftGrows | ⟨leftLast, secondLast⟩
        · rcases right.progressed rightLater with rightGrows | ⟨_, thirdLast⟩
          · exact .inl (Std.lt_trans leftGrows rightGrows)
          · exact .inl (Std.lt_of_lt_of_le leftGrows
              (by simp [thirdLast, Int64.le_maxValue]))
        · rcases right.progressed rightLater with rightGrows | ⟨_, thirdLast⟩
          · rw [secondLast] at rightGrows
            exact absurd (Int64.le_maxValue third.localTime)
              (Std.not_le.mpr rightGrows)
          · exact .inr ⟨leftLast, thirdLast⟩
      · simpa [right.replayed rightSame] using left.progressed leftLater
    · rw [left.replayed leftSame]
      exact right.progressed (leftSame ▸ later)

theorem localTime_le {earlier later : Stamp} (order : earlier.Precedes later) :
    earlier.localTime ≤ later.localTime := by
  rcases Int64.lt_or_eq_of_le order.external_le with progress | same
  · rcases order.progressed progress with grows | ⟨earlierLast, laterLast⟩
    · exact Std.le_of_lt grows
    · simp [earlierLast, laterLast]
  · simp [order.replayed same]

end Precedes

theorem external_of_advance {stored : Option Stamp} {external clock : Int64}
    {stamp : Stamp} (advanced : advance? stored external clock = some stamp) :
    stamp.external = external := by
  cases stored with
  | none =>
      simp only [advance?, Option.some.injEq] at advanced
      simp [← advanced]
  | some earlier =>
      simp only [advance?] at advanced
      split at advanced
      · simp only [Option.some.injEq] at advanced
        simp [← advanced]
      · split at advanced
        · next same =>
            simp only [Option.some.injEq] at advanced
            simpa [← advanced] using same
        · simp at advanced

theorem precedes_of_advance {earlier stamp : Stamp} {external clock : Int64}
    (advanced : advance? (some earlier) external clock = some stamp) :
    earlier.Precedes stamp := by
  simp only [advance?] at advanced
  split at advanced
  · next newer =>
      simp only [Option.some.injEq] at advanced
      subst stamp
      refine ⟨Std.le_of_lt newer, fun same => ?_, fun _ => ?_⟩
      · exact absurd (same ▸ newer) Std.lt_irrefl
      · rcases laterTime_progresses earlier.localTime with grows | ⟨last, stays⟩
        · exact .inl (Std.lt_of_lt_of_le grows Std.right_le_max)
        · refine .inr ⟨last, Std.le_antisymm (Int64.le_maxValue _) ?_⟩
          simpa [stays] using
            (Std.right_le_max : laterTime earlier.localTime ≤
              max clock (laterTime earlier.localTime))
  · split at advanced
    · simp only [Option.some.injEq] at advanced
      exact advanced ▸ .refl earlier
    · simp at advanced

/-- A time is stale exactly when a later one is stored. -/
theorem advance?_eq_none_iff {stored : Option Stamp} {external clock : Int64} :
    advance? stored external clock = none ↔
      ∃ stamp, stored = some stamp ∧ external < stamp.external := by
  cases stored with
  | none => simp [advance?]
  | some stamp =>
      by_cases newer : stamp.external < external
      · simp [advance?, newer, Std.le_of_lt newer]
      · by_cases same : stamp.external = external
        · simp [advance?, same]
        · have older : external < stamp.external := by grind
          simp [advance?, newer, same, older]

end Stamp

end VehicleRelay
