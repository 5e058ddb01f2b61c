import Tollgate.Model.Filter.Wildcard

/-! # The greedy scan decides glob matching

One remembered `*` is enough: between the last `*` and the current position the glob is literal,
so any later placement of an earlier `*` can be moved into the last one. The scan's state therefore
stands for the current alignment or a later placement of the remembered `*`, and a weight bounded
by the fuel decreases in every round.
-/

namespace Tollgate

open Glob

/-- A glob matches a text whose letters are compared in either case. -/
def GlobMatches (glob text : Bytes) : Prop := Matches starByte glob (text.map lowerByte)

/-- What holds of the scan's positions in every round. -/
structure ScanState (glob text : Bytes) (g t : ℕ) (star : Option (ℕ × ℕ)) : Prop where
  inGlob : g ≤ glob.length
  inText : t ≤ text.length
  literal : ∀ starG starT, star = some (starG, starT) →
    starT ≤ t ∧ g = starG + 1 + (t - starT) ∧ starByte ∉ (glob.drop (starG + 1)).take (t - starT)

/-- The matches a state still allows: the current alignment, or a later place for the last `*`. -/
def ScanAlive (glob text : Bytes) (g t : ℕ) (star : Option (ℕ × ℕ)) : Prop :=
  Matches starByte (glob.drop g) ((text.map lowerByte).drop t) ∨
    ∃ starG starT later, star = some (starG, starT) ∧ starT < later ∧ later ≤ text.length ∧
      Matches starByte (glob.drop (starG + 1)) ((text.map lowerByte).drop later)

/-- The weight of a state; each round lowers it. -/
def scanWeight (glob text : Bytes) (g : ℕ) (star : Option (ℕ × ℕ)) : ℕ :=
  (text.length + 1 - star.elim 0 (fun place => place.2 + 1)) * (glob.length + 1) + (glob.length - g)

variable {glob text : Bytes} {g t : ℕ} {star : Option (ℕ × ℕ)}

private theorem matches_star_iff (atStar : glob[g]? = some starByte) :
    Matches starByte (glob.drop g) ((text.map lowerByte).drop t) ↔
      ∃ later, t ≤ later ∧ later ≤ max t text.length ∧
        Matches starByte (glob.drop (g + 1)) ((text.map lowerByte).drop later) := by
  obtain ⟨bound, same⟩ := List.getElem?_eq_some_iff.mp atStar
  rw [List.drop_eq_getElem_cons bound, same, Matches.star_iff]
  constructor
  · rintro ⟨front, back, split, matched⟩
    have backEq : back = (text.map lowerByte).drop (t + front.length) := by
      rw [← List.drop_drop, split, List.drop_left]
    have lengths := congrArg List.length split
    simp only [List.length_drop, List.length_map, List.length_append] at lengths
    exact ⟨t + front.length, by omega, by omega, backEq ▸ matched⟩
  · rintro ⟨later, lower, _, matched⟩
    refine ⟨((text.map lowerByte).drop t).take (later - t), (text.map lowerByte).drop later, ?_, matched⟩
    have rejoin := List.take_append_drop (later - t) ((text.map lowerByte).drop t)
    rw [List.drop_drop, Nat.add_sub_cancel' lower] at rejoin
    exact rejoin.symm

/-- A later placement of an earlier `*` passes through the literal part up to the next one. -/
private theorem later_star {starG starT later : ℕ} (state : ScanState glob text g t (some (starG, starT)))
    (atStar : glob[g]? = some starByte) (after : starT < later)
    (matched : Matches starByte (glob.drop (starG + 1)) ((text.map lowerByte).drop later)) :
    Matches starByte (glob.drop g) ((text.map lowerByte).drop t) := by
  obtain ⟨ordered, position, plain⟩ := state.literal starG starT rfl
  have split : glob.drop (starG + 1) = (glob.drop (starG + 1)).take (t - starT) ++ glob.drop g := by
    conv_lhs => rw [← List.take_append_drop (t - starT) (glob.drop (starG + 1))]
    rw [List.drop_drop, ← position]
  rw [split, Matches.head_iff plain] at matched
  obtain ⟨rest, cut, matched⟩ := matched
  have length : ((glob.drop (starG + 1)).take (t - starT)).length = t - starT := by
    have inGlob := state.inGlob
    simp only [List.length_take, List.length_drop]
    omega
  have restEq : rest = (text.map lowerByte).drop (later + (t - starT)) := by
    rw [← List.drop_drop, cut, List.drop_left' length]
  have rejoin : (text.map lowerByte).drop t =
      ((text.map lowerByte).drop t).take (later - starT) ++ rest := by
    conv_lhs => rw [← List.take_append_drop (later - starT) ((text.map lowerByte).drop t)]
    rw [List.drop_drop, restEq]
    congr 2
    omega
  obtain ⟨bound, same⟩ := List.getElem?_eq_some_iff.mp atStar
  rw [List.drop_eq_getElem_cons bound, same] at matched ⊢
  rw [rejoin]
  exact matched.star_prepend _

private theorem alive_star (state : ScanState glob text g t star) (inside : t < text.length)
    (atStar : glob[g]? = some starByte) :
    ScanAlive glob text g t star ↔ ScanAlive glob text (g + 1) t (some (g, t)) := by
  have current : Matches starByte (glob.drop g) ((text.map lowerByte).drop t) ↔ _ := matches_star_iff atStar
  have rightSide : ScanAlive glob text (g + 1) t (some (g, t)) ↔
      Matches starByte (glob.drop g) ((text.map lowerByte).drop t) := by
    rw [current]
    constructor
    · rintro (matched | ⟨starG, starT, later, equal, after, bound, matched⟩)
      · exact ⟨t, le_rfl, by omega, matched⟩
      · obtain ⟨rfl, rfl⟩ := Prod.mk.inj (Option.some.inj equal)
        exact ⟨later, after.le, by omega, matched⟩
    · rintro ⟨later, lower, bound, matched⟩
      rcases Nat.eq_or_lt_of_le lower with rfl | after
      · exact .inl matched
      · exact .inr ⟨g, t, later, rfl, after, by omega, matched⟩
  rw [rightSide]
  constructor
  · rintro (matched | ⟨starG, starT, later, rfl, after, bound, matched⟩)
    · exact matched
    · exact later_star state atStar after matched
  · exact .inl

private theorem alive_literal (inside : t < text.length) (plain : glob[g]? ≠ some starByte)
    (same : glob[g]? = text[t]?.map lowerByte) :
    ScanAlive glob text g t star ↔ ScanAlive glob text (g + 1) (t + 1) star := by
  rw [List.getElem?_eq_getElem inside, Option.map_some] at same
  obtain ⟨bound, equal⟩ := List.getElem?_eq_some_iff.mp same
  have notStar : glob[g] ≠ starByte := fun wild => plain (by rw [List.getElem?_eq_getElem bound, wild])
  have textBound : t < (text.map lowerByte).length := by simpa using inside
  have current : Matches starByte (glob.drop g) ((text.map lowerByte).drop t) ↔
      Matches starByte (glob.drop (g + 1)) ((text.map lowerByte).drop (t + 1)) := by
    rw [List.drop_eq_getElem_cons bound, List.drop_eq_getElem_cons textBound, Matches.literal_iff notStar]
    constructor
    · rintro ⟨rest, cut, matched⟩
      rw [(List.cons.inj cut).2]
      exact matched
    · intro matched
      exact ⟨_, by rw [List.getElem_map, equal], matched⟩
  rw [ScanAlive, ScanAlive, current]

private theorem not_current (inside : t < text.length) (plain : glob[g]? ≠ some starByte)
    (different : glob[g]? ≠ text[t]?.map lowerByte) :
    ¬ Matches starByte (glob.drop g) ((text.map lowerByte).drop t) := by
  intro matched
  have textBound : t < (text.map lowerByte).length := by simpa using inside
  rw [List.drop_eq_getElem_cons textBound] at matched
  by_cases bound : g < glob.length
  · have notStar : glob[g] ≠ starByte := fun wild => plain (by rw [List.getElem?_eq_getElem bound, wild])
    rw [List.drop_eq_getElem_cons bound, Matches.literal_iff notStar] at matched
    obtain ⟨rest, cut, _⟩ := matched
    apply different
    rw [List.getElem?_eq_getElem bound, List.getElem?_eq_getElem inside, Option.map_some,
      ← (List.cons.inj cut).1, List.getElem_map]
  · rw [List.drop_eq_nil_of_le (by omega), Matches.nil_left_iff] at matched
    contradiction

private theorem alive_retry {starG starT : ℕ} (inside : starT < text.length)
    (dead : ¬ Matches starByte (glob.drop g) ((text.map lowerByte).drop t)) :
    ScanAlive glob text g t (some (starG, starT)) ↔
      ScanAlive glob text (starG + 1) (starT + 1) (some (starG, starT + 1)) := by
  constructor
  · rintro (matched | ⟨otherG, otherT, later, equal, after, bound, matched⟩)
    · exact absurd matched dead
    · obtain ⟨rfl, rfl⟩ := Prod.mk.inj (Option.some.inj equal)
      rcases Nat.eq_or_lt_of_le (Nat.succ_le_of_lt after) with rfl | further
      · exact .inl matched
      · exact .inr ⟨starG, starT + 1, later, rfl, further, bound, matched⟩
  · rintro (matched | ⟨otherG, otherT, later, equal, after, bound, matched⟩)
    · exact .inr ⟨starG, starT, starT + 1, rfl, Nat.lt_succ_self _, inside, matched⟩
    · obtain ⟨rfl, rfl⟩ := Prod.mk.inj (Option.some.inj equal)
      exact .inr ⟨starG, starT, later, rfl, by omega, bound, matched⟩

/-- At the end of the text, a later place for the last `*` leaves too little text for the literal
part that follows it. -/
private theorem alive_end (state : ScanState glob text g t star) (ended : ¬ t < text.length) :
    ScanAlive glob text g t star ↔ ((glob.drop g).all (· == starByte)) = true := by
  have atEnd : t = text.length := by have := state.inText; omega
  have current : Matches starByte (glob.drop g) ((text.map lowerByte).drop t) ↔
      ((glob.drop g).all (· == starByte)) = true := by
    have exhausted : (text.map lowerByte).drop t = [] := List.drop_eq_nil_of_le (by simp [atEnd])
    rw [exhausted, Matches.nil_right_iff]
    simp
  rw [← current]
  constructor
  · rintro (matched | ⟨starG, starT, later, rfl, after, bound, matched⟩)
    · exact matched
    · exfalso
      obtain ⟨ordered, position, plain⟩ := state.literal starG starT rfl
      have inGlob := state.inGlob
      rw [← List.take_append_drop (t - starT) (glob.drop (starG + 1)), Matches.head_iff plain] at matched
      obtain ⟨rest, cut, _⟩ := matched
      have lengths := congrArg List.length cut
      simp only [List.length_drop, List.length_map, List.length_append, List.length_take] at lengths
      omega
  · exact .inl

theorem state_star (state : ScanState glob text g t star) (atStar : glob[g]? = some starByte) :
    ScanState glob text (g + 1) t (some (g, t)) where
  inGlob := (List.getElem?_eq_some_iff.mp atStar).1
  inText := state.inText
  literal := by
    rintro starG starT equal
    obtain ⟨rfl, rfl⟩ := Prod.mk.inj (Option.some.inj equal)
    simp

theorem state_literal (state : ScanState glob text g t star) (inside : t < text.length)
    (plain : glob[g]? ≠ some starByte) (same : glob[g]? = text[t]?.map lowerByte) :
    ScanState glob text (g + 1) (t + 1) star := by
  rw [List.getElem?_eq_getElem inside, Option.map_some] at same
  obtain ⟨bound, _⟩ := List.getElem?_eq_some_iff.mp same
  refine ⟨bound, inside, ?_⟩
  rintro starG starT rfl
  obtain ⟨ordered, position, clean⟩ := state.literal starG starT rfl
  refine ⟨by omega, by omega, ?_⟩
  have next : (glob.drop (starG + 1))[t - starT]? = some glob[g] := by
    rw [List.getElem?_drop, ← position, List.getElem?_eq_getElem bound]
  have extend : (glob.drop (starG + 1)).take (t + 1 - starT) =
      (glob.drop (starG + 1)).take (t - starT) ++ [glob[g]] := by
    have count : t + 1 - starT = (t - starT) + 1 := by omega
    rw [count, List.take_add_one, next, Option.toList_some]
  rw [extend]
  simp only [List.mem_append, List.mem_singleton, not_or]
  exact ⟨clean, fun wild => plain (by rw [List.getElem?_eq_getElem bound, ← wild])⟩

theorem state_retry {starG starT : ℕ} (state : ScanState glob text g t (some (starG, starT)))
    (inside : t < text.length) : ScanState glob text (starG + 1) (starT + 1) (some (starG, starT + 1)) := by
  obtain ⟨ordered, position, _⟩ := state.literal starG starT rfl
  have inGlob := state.inGlob
  refine ⟨by omega, by omega, ?_⟩
  rintro otherG otherT equal
  obtain ⟨rfl, rfl⟩ := Prod.mk.inj (Option.some.inj equal)
  simp

private theorem weight_star (state : ScanState glob text g t star)
    (atStar : glob[g]? = some starByte) :
    scanWeight glob text (g + 1) (some (g, t)) < scanWeight glob text g star := by
  have bound := (List.getElem?_eq_some_iff.mp atStar).1
  have earlier : star.elim 0 (fun place => place.2 + 1) ≤ t + 1 := by
    rcases star with _ | ⟨starG, starT⟩
    · exact Nat.zero_le _
    · exact Nat.succ_le_succ (state.literal starG starT rfl).1
  have product := Nat.mul_le_mul_right (glob.length + 1)
    (Nat.sub_le_sub_left earlier (text.length + 1))
  simp only [scanWeight, Option.elim_some]
  omega

private theorem weight_literal (bound : g < glob.length) :
    scanWeight glob text (g + 1) star < scanWeight glob text g star := by
  simp only [scanWeight]
  omega

private theorem weight_retry {starG starT : ℕ} (inside : starT < text.length) :
    scanWeight glob text (starG + 1) (some (starG, starT + 1)) <
      scanWeight glob text g (some (starG, starT)) := by
  have split : text.length + 1 - (starT + 1) = (text.length + 1 - (starT + 1 + 1)) + 1 := by omega
  simp only [scanWeight, Option.elim_some]
  rw [split, Nat.add_mul]
  omega

/-- With fuel above its weight the scan ends, and decides whether its state is alive. -/
theorem globLoop_spec [Width] (globFits : Width.fits glob.length = true) (textFits : Width.fits text.length = true)
    (state : ScanState glob text g t star) (fuel : ℕ) (enough : scanWeight glob text g star < fuel) :
    ∃ result, globLoop glob text fuel g t star = some result ∧
      (result = true ↔ ScanAlive glob text g t star) := by
  induction fuel generalizing g t star with
  | zero => omega
  | succ fuel ih =>
    unfold globLoop
    split
    · next inside =>
      split
      · next atStar =>
        have next := state_star state atStar
        have lighter := weight_star state atStar
        rw [alive_star state inside atStar, Width.add_of_le globFits next.inGlob]
        exact ih next (by omega)
      · next plain =>
        rw [List.getElem?_eq_getElem inside, Option.bind_eq_bind, Option.bind_some]
        have byte : text[t]?.map lowerByte = some (lowerByte text[t]) := by
          rw [List.getElem?_eq_getElem inside, Option.map_some]
        rw [← byte]
        split
        · next same =>
          have next := state_literal state inside plain same
          have lighter : scanWeight glob text (g + 1) star < scanWeight glob text g star :=
            weight_literal next.inGlob
          rw [alive_literal inside plain same, Width.add_of_le globFits next.inGlob,
            Width.add_of_le textFits next.inText]
          exact ih next (by omega)
        · next different =>
          have dead := not_current inside plain different
          rcases star with _ | ⟨starG, starT⟩
          · refine ⟨false, rfl, ?_⟩
            simp [ScanAlive, dead]
          · have next := state_retry state inside
            have earlier := (state.literal starG starT rfl).1
            have lighter : scanWeight glob text (starG + 1) (some (starG, starT + 1)) <
                scanWeight glob text g (some (starG, starT)) := weight_retry (by omega)
            rw [alive_retry (by omega) dead]
            dsimp only
            rw [Width.add_of_le globFits next.inGlob, Width.add_of_le textFits next.inText]
            exact ih next (by omega)
    · next ended =>
      rw [slice_from state.inGlob]
      exact ⟨_, rfl, (alive_end state ended).symm⟩

/-- The scan ends within its fuel, `(|text| + 2) * (|glob| + 1)` rounds, and decides the glob. -/
theorem globLoop_start [Width] {glob text : Bytes} (globFits : Width.fits glob.length = true)
    (textFits : Width.fits text.length = true) (fuel : ℕ) (enough : globFuel glob text ≤ fuel) :
    ∃ result, globLoop glob text fuel 0 0 none = some result ∧ (result = true ↔ GlobMatches glob text) := by
  have state : ScanState glob text 0 0 none := ⟨Nat.zero_le _, Nat.zero_le _, by simp⟩
  have weight : scanWeight glob text 0 none < fuel := by
    have split : text.length + 2 = (text.length + 1) + 1 := rfl
    rw [globFuel, split, Nat.add_mul] at enough
    simp only [scanWeight, Option.elim_none, Nat.sub_zero]
    omega
  obtain ⟨result, ended, decides⟩ := globLoop_spec globFits textFits state fuel weight
  exact ⟨result, ended, decides.trans (by simp [ScanAlive, GlobMatches])⟩

theorem globMatches_iff (glob text : Bytes) : globMatches glob text = true ↔ GlobMatches glob text := by
  obtain ⟨result, ended, decides⟩ := @globLoop_start _ glob text rfl rfl _ le_rfl
  simpa [globMatches, globScan, ended] using decides

/-- The scan is the same at every width that holds its positions. -/
theorem globScan_eq [Width] {glob text : Bytes} (globFits : Width.fits glob.length = true)
    (textFits : Width.fits text.length = true) : globScan glob text = some (globMatches glob text) := by
  obtain ⟨result, ended, decides⟩ := globLoop_start globFits textFits _ le_rfl
  rw [globScan, ended, Bool.eq_iff_iff.mpr (decides.trans (globMatches_iff glob text).symm)]

end Tollgate
