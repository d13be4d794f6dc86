import Mathlib.Data.List.Induction

/-! What holds of a history since some entry of it. Histories are lists, the latest entry last. -/
namespace PathPolicy
variable {α : Type}

/-- Some entry has the first property, and all entries after it have the second one. -/
def Since (marks keeps : α → Prop) (history : List α) : Prop :=
  ∃ before x after, history = before ++ x :: after ∧ marks x ∧ ∀ y ∈ after, keeps y

namespace Since
variable {marks keeps : α → Prop}

@[simp] theorem not_nil : ¬Since marks keeps [] := by
  rintro ⟨before, x, after, h, -⟩
  cases before <;> cases h

theorem append_singleton (history : List α) (x : α) :
    Since marks keeps (history ++ [x]) ↔ marks x ∨ keeps x ∧ Since marks keeps history := by
  constructor
  · rintro ⟨before, y, after, h, hy, hafter⟩
    rcases after.eq_nil_or_concat with rfl | ⟨after, z, rfl⟩
    · obtain ⟨-, hx⟩ := List.append_inj' h rfl
      cases hx
      exact Or.inl hy
    · rw [List.concat_eq_append, ← List.cons_append, ← List.append_assoc] at h
      obtain ⟨rfl, hx⟩ := List.append_inj' h rfl
      cases hx
      exact Or.inr ⟨hafter _ (by simp), before, y, after, rfl, hy,
        fun w hw => hafter w (by simp [hw])⟩
  · rintro (hx | ⟨hx, before, y, after, rfl, hy, hafter⟩)
    · exact ⟨history, x, [], rfl, hx, by simp⟩
    · refine ⟨before, y, after ++ [x], by simp, hy, ?_⟩
      intro w hw
      rcases List.mem_append.mp hw with hw | hw
      · exact hafter w hw
      · cases List.mem_singleton.mp hw
        exact hx

end Since
end PathPolicy
