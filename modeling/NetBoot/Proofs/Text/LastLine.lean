-- What the last of some lines says, among those that say anything.
import Mathlib.Data.List.Induction

namespace NetBoot

section LastSays

variable {α β γ : Type} {P : α → β → Prop} {body : List α} {line : α} {x : β}

/-- Of the lines that say something, the last one says this. -/
def LastSays (P : α → β → Prop) (body : List α) (x : β) : Prop :=
  ∃ before line after, body = before ++ line :: after ∧ P line x ∧ ∀ other ∈ after, ∀ y, ¬ P other y

theorem not_lastSays_nil : ¬ LastSays P [] x := by
  rintro ⟨before, line, after, h, _⟩
  simp at h

theorem lastSays_concat :
    LastSays P (body ++ [line]) x ↔ P line x ∨ (∀ y, ¬ P line y) ∧ LastSays P body x := by
  refine ⟨?_, ?_⟩
  · rintro ⟨before, last, after, hbody, hlast, hafter⟩
    rcases List.eq_nil_or_concat after with rfl | ⟨after, other, rfl⟩
    · obtain ⟨_, hline⟩ := List.append_inj' hbody rfl
      cases hline
      exact Or.inl hlast
    · rw [List.concat_eq_append] at hbody hafter
      rw [← List.cons_append, ← List.append_assoc] at hbody
      obtain ⟨rfl, hline⟩ := List.append_inj' hbody rfl
      cases hline
      exact Or.inr ⟨hafter line (by simp), before, last, after, rfl, hlast,
        fun other hother => hafter other (List.mem_append_left _ hother)⟩
  · rintro (hline | ⟨hnone, before, last, after, rfl, hlast, hafter⟩)
    · exact ⟨body, line, [], rfl, hline, by simp⟩
    · refine ⟨before, last, after ++ [line], by simp, hlast, ?_⟩
      rw [List.forall_mem_append]
      exact ⟨hafter, by simpa using hnone⟩

theorem lastSays_map {f : γ → α} {body : List γ} :
    LastSays P (body.map f) x ↔ LastSays (fun line => P (f line)) body x := by
  induction body using List.reverseRecOn with
  | nil => simp only [List.map_nil, not_lastSays_nil]
  | append_singleton body line ih =>
    rw [List.map_append, List.map_singleton, lastSays_concat, lastSays_concat, ih]

/-- Where what a line says is worked out from something else, the last line is the same. -/
theorem lastSays_image {Q : α → γ → Prop} {f : γ → β} :
    LastSays (fun line y => ∃ z, Q line z ∧ y = f z) body x ↔ ∃ z, LastSays Q body z ∧ x = f z := by
  refine ⟨?_, ?_⟩
  · rintro ⟨before, line, after, hbody, ⟨z, hz, hx⟩, hafter⟩
    exact ⟨z, ⟨before, line, after, hbody, hz,
      fun other hother w hw => hafter other hother (f w) ⟨w, hw, rfl⟩⟩, hx⟩
  · rintro ⟨z, ⟨before, line, after, hbody, hz, hafter⟩, hx⟩
    refine ⟨before, line, after, hbody, ⟨z, hz, hx⟩, ?_⟩
    rintro other hother _ ⟨w, hw, _⟩
    exact hafter other hother w hw

theorem exists_lastSays : (∃ x, LastSays P body x) ↔ ∃ line ∈ body, ∃ x, P line x := by
  induction body using List.reverseRecOn with
  | nil => simp [not_lastSays_nil]
  | append_singleton body line ih =>
    simp only [lastSays_concat, exists_or, exists_and_left, ih, List.mem_append,
      List.mem_singleton, or_and_right, exists_eq_left]
    rw [← not_exists]
    by_cases h : ∃ x, P line x <;> simp [h]

/-- Where every line says one thing at most, so do all of them. -/
theorem LastSays.unique (hP : ∀ line x y, P line x → P line y → x = y) {y : β}
    (hx : LastSays P body x) (hy : LastSays P body y) : x = y := by
  induction body using List.reverseRecOn with
  | nil => exact absurd hx not_lastSays_nil
  | append_singleton body line ih =>
    rw [lastSays_concat] at hx hy
    rcases hx with hx | ⟨hnone, hx⟩ <;> rcases hy with hy | ⟨hnone', hy⟩
    · exact hP line x y hx hy
    · exact absurd hx (hnone' x)
    · exact absurd hy (hnone y)
    · exact ih hx hy

/-- Lines that say nothing may be left out. -/
theorem lastSays_filter {p : α → Bool} (hp : ∀ line x, P line x → p line = true) :
    LastSays P (body.filter p) x ↔ LastSays P body x := by
  induction body using List.reverseRecOn with
  | nil => rfl
  | append_singleton body line ih =>
    rw [List.filter_append, lastSays_concat, ← ih]
    by_cases h : p line = true
    · rw [List.filter_cons_of_pos h, List.filter_nil, lastSays_concat]
    · have hnone : ∀ y, ¬ P line y := fun y hy => h (hp line y hy)
      rw [List.filter_cons_of_neg h, List.filter_nil, List.append_nil]
      simp [hnone]

end LastSays

end NetBoot
