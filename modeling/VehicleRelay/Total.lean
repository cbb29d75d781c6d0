/-!
# Totals

The total of a measure over a list.  When every item becomes a list of its own,
the joined list is as long as the total of their lengths.
-/

namespace VehicleRelay

universe u v

def total {Item : Type u} (measure : Item → Nat) : List Item → Nat
  | [] => 0
  | item :: items => measure item + total measure items

@[simp] theorem total_append {Item : Type u} (measure : Item → Nat) (left right : List Item) :
    total measure (left ++ right) = total measure left + total measure right := by
  induction left with
  | nil => simp [total]
  | cons item items ih => simp [total, ih, Nat.add_assoc]

theorem length_flatMap_eq_total {Item : Type u} {Part : Type v} (parts : Item → List Part)
    (measure : Item → Nat) (items : List Item)
    (measured : ∀ item, item ∈ items → (parts item).length = measure item) :
    (items.flatMap parts).length = total measure items := by
  induction items with
  | nil => rfl
  | cons item items ih =>
      have first := measured item (by simp)
      have others := ih fun other member => measured other (by simp [member])
      simp [total, first, others]

end VehicleRelay
