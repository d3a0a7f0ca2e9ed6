import Mathlib.Data.List.Infix

/-!
# Splitting at a Separator

A list cut at every occurrence of one element, as `std::views::split` cuts a text at a character:
`List.splitOn` of the standard library. What occurs in one of the pieces occurs in the list, and
what occurs in the list without the separator in it occurs in one of the pieces.
-/

namespace Splitting

variable {α : Type} {sep : α} {o p s : List α}

/-- What does not hold the separator lies on one side of it. -/
theorem infix_append_cons_iff (ho : sep ∉ o) (p s : List α) :
    o <:+: p ++ sep :: s ↔ o <:+: p ∨ o <:+: s := by
  constructor
  · rintro ⟨a, b, h⟩
    rw [List.append_assoc] at h
    rcases List.append_eq_append_iff.mp h with ⟨c, rfl, hc⟩ | ⟨c, rfl, hc⟩
    · rcases List.append_eq_append_iff.mp hc with ⟨d, rfl, -⟩ | ⟨d, rfl, hd⟩
      · exact .inl ⟨a, d, by simp⟩
      · rcases d with _ | ⟨x, d⟩
        · exact .inl ⟨a, [], by simp⟩
        · obtain ⟨rfl, -⟩ := List.cons.inj hd
          exact absurd (by simp) ho
    · rcases c with _ | ⟨x, c⟩
      · rcases o with _ | ⟨y, o⟩
        · exact .inl List.nil_infix
        · obtain ⟨rfl, -⟩ := List.cons.inj hc
          exact absurd List.mem_cons_self ho
      · obtain ⟨-, rfl⟩ := List.cons.inj hc
        exact .inr ⟨c, b, by simp⟩
  · rintro (⟨a, b, rfl⟩ | ⟨a, b, rfl⟩)
    · exact ⟨a, b ++ sep :: s, by simp⟩
    · exact ⟨p ++ sep :: a, b, by simp⟩

variable [DecidableEq α]

/-- **The induction over the pieces**: a list without the separator, or a piece without it in
front of the separator and of more pieces. -/
theorem split_induction (sep : α) {motive : List α → Prop}
    (single : ∀ s, sep ∉ s → motive s)
    (cons : ∀ p s, sep ∉ p → motive s → motive (p ++ sep :: s)) (s : List α) : motive s := by
  by_cases hs : sep ∈ s
  · obtain ⟨p, t, rfl, hp⟩ := List.eq_append_cons_of_mem hs
    exact cons p t hp (split_induction sep single cons t)
  · exact single s hs
termination_by s.length
decreasing_by
  rw [‹s = _›, List.length_append, List.length_cons]
  omega

/-- There is no separator in a piece. -/
theorem not_mem_of_mem_splitOn (h : p ∈ s.splitOn sep) : sep ∉ p := by
  induction s using split_induction sep with
  | single s hs =>
      rw [List.splitOn_eq_singleton hs, List.mem_singleton] at h
      rwa [h]
  | cons q s hq ih =>
      rw [List.splitOn_append_cons_self_of_not_mem hq, List.mem_cons] at h
      rcases h with rfl | h
      · exact hq
      · exact ih h

/-- **What occurs in the list**, without the separator in it, occurs in one of the pieces. -/
theorem infix_iff_exists_splitOn (ho : sep ∉ o) (s : List α) :
    o <:+: s ↔ ∃ e ∈ s.splitOn sep, o <:+: e := by
  induction s using split_induction sep with
  | single s hs => simp [List.splitOn_eq_singleton hs]
  | cons p s hp ih =>
      rw [infix_append_cons_iff ho, ih, List.splitOn_append_cons_self_of_not_mem hp]
      simp

end Splitting
