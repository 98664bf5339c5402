/-! Results that may be errors. -/
namespace Lisplet.Fallible

theorem map_eq_ok {ε α β : Type} {f : α → β} {x : Except ε α} {b : β} (h : x.map f = .ok b) :
    ∃ a, x = .ok a ∧ f a = b := by
  cases x with
  | error e => cases h
  | ok a => exact ⟨a, rfl, Except.ok.inj h⟩

theorem map_eq_error {ε α β : Type} {f : α → β} {x : Except ε α} {e : ε}
    (h : x.map f = .error e) : x = .error e := by
  cases x with
  | error e => exact congrArg Except.error (Except.error.inj h)
  | ok a => cases h

theorem eq_ok_of_toOption {ε α : Type} {x : Except ε α} {a : α} (h : x.toOption = some a) :
    x = .ok a := by
  cases x with
  | error e => cases h
  | ok b =>
    cases h
    rfl

theorem map_append_nil {ε α : Type} (x : Except ε (List α)) : x.map ([] ++ ·) = x := by
  cases x <;> rfl

theorem map_map_append {ε α : Type} (x : Except ε (List α)) (front back : List α) :
    (x.map (back ++ ·)).map (front ++ ·) = x.map (front ++ back ++ ·) := by
  cases x with
  | error e => rfl
  | ok xs => exact congrArg Except.ok (List.append_assoc front back xs).symm

end Lisplet.Fallible
