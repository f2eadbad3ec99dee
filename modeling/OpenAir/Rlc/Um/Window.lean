import OpenAir.Rlc.Um.Frame

/-! The reordering window. All tests of the source are read as distances ahead of VR(UR): VR(UH)
lies at most a window ahead, what lies behind VR(UH) by less than a window is new, and the
rest of the circle is old. -/
namespace OpenAir.Rlc.Um
open BitField Serial

/-- The remainder of C for a difference that is off by less than one turn. -/
theorem tmod_turn {v m : Int} (lower : -m < v) (upper : v < 2 * m) :
    v.tmod m = if m ≤ v then v - m else v := by
  split
  · have shift : v = (v - m) + m := by omega
    rw [Int.tmod_eq_emod_of_nonneg (by omega), shift, Int.add_emod_right,
      Int.emod_eq_of_lt (by omega) (by omega)]
    omega
  · by_cases negative : v < 0
    · have flipped : (-v).tmod m = -v := Int.tmod_eq_of_lt (by omega) (by omega)
      rw [Int.neg_tmod] at flipped
      omega
    · exact Int.tmod_eq_of_lt (by omega) (by omega)

section Tests

variable {config : Config} {rx : Rx}

/-- VR(UR), VR(UH) are sequence numbers at most a window apart. -/
structure Edges (config : Config) (rx : Rx) : Prop where
  ur : rx.vrUr < config.modulo
  uh : rx.vrUh < config.modulo
  width : dist config.modulo rx.vrUr rx.vrUh ≤ config.windowSize

theorem relative_modulus : rx.relative config (rx.modulus config) = 0 := by
  unfold Rx.relative
  rw [Int.sub_self]
  exact Int.zero_tmod _

/-- Where an SN lies relative to the lower edge of the window, by its distance ahead of VR(UR):
inside of the window above VR(UR), ahead of it, or inside below VR(UR). -/
theorem relative_dist (edges : Edges config rx) {sn : Nat} (valid : sn < config.modulo) :
    let far := dist config.modulo rx.vrUr sn
    let reach := dist config.modulo rx.vrUr rx.vrUh
    (far < reach → rx.relative config sn = config.windowSize - reach + far) ∧
    (reach ≤ far → far < reach + config.windowSize →
      rx.relative config sn < 0 ∨ config.windowSize ≤ rx.relative config sn) ∧
    (reach + config.windowSize ≤ far → rx.relative config sn =
        far - reach - config.windowSize) := by
  have double := config.modulo_eq
  have ur := edges.ur
  have uh := edges.uh
  have width := edges.width
  have edge : rx.modulus config = rx.vrUh - config.windowSize := rfl
  have turn : rx.relative config sn = _ := tmod_turn
    (show -(config.modulo : Int) < sn - rx.modulus config by omega) (by omega)
  rw [turn]
  simp only
  rw [dist_eq ur valid]
  rw [dist_eq ur uh] at width ⊢
  split at width <;> split <;> split <;> omega

theorem relative_vrUh : rx.relative config rx.vrUh = config.windowSize := by
  have double := config.modulo_eq
  have positive := config.windowSize_lt
  have edge : rx.modulus config = rx.vrUh - config.windowSize := rfl
  have turn : rx.relative config rx.vrUh = _ := tmod_turn
    (show -(config.modulo : Int) < rx.vrUh - rx.modulus config by omega) (by omega)
  rw [turn, if_neg (by omega)]
  omega

theorem relative_vrUr (edges : Edges config rx) :
    rx.relative config rx.vrUr = config.windowSize - dist config.modulo rx.vrUr rx.vrUh := by
  obtain ⟨above, -, -⟩ := relative_dist edges edges.ur
  rw [dist_self] at above
  by_cases wide : 0 < dist config.modulo rx.vrUr rx.vrUh
  · rw [above wide]
    omega
  · have same : rx.vrUr = rx.vrUh := dist_inj edges.ur edges.ur edges.uh (by rw [dist_self]; omega)
    rw [same, relative_vrUh, dist_self]
    omega

theorem inWindow_below {lower sn higher : Int} :
    (rx.inWindow config lower sn higher = 1 ∨ rx.inWindow config lower sn higher = 0) ↔
      rx.relative config lower ≤ rx.relative config sn ∧
      rx.relative config sn < rx.relative config higher := by
  unfold Rx.inWindow
  simp only
  split
  · omega
  · split
    · omega
    · split
      · split <;> omega
      · split <;> omega

/-- An SN is outside of the reordering window when it lies less than a window ahead of VR(UH). -/
theorem inReorderingWindow_iff {sn : Nat} (uh : rx.vrUh < config.modulo)
    (valid : sn < config.modulo) :
    rx.inReorderingWindow config sn < 0 ↔ dist config.modulo rx.vrUh sn < config.windowSize := by
  have double := config.modulo_eq
  have edge : rx.modulus config = rx.vrUh - config.windowSize := rfl
  have turn : rx.relative config sn = _ := tmod_turn
    (show -(config.modulo : Int) < sn - rx.modulus config by omega) (by omega)
  rw [dist_eq uh valid]
  unfold Rx.inReorderingWindow
  simp only [turn]
  split <;> split <;> split <;> omega

theorem inReorderingWindow_ne {sn : Int} :
    rx.inReorderingWindow config sn ≠ 0 ↔ rx.inReorderingWindow config sn < 0 := by
  unfold Rx.inReorderingWindow
  simp only
  split <;> decide

variable (edges : Edges config rx) {sn : Nat} (valid : sn < config.modulo)

include edges

theorem vrUr_ne_iff : rx.vrUr ≠ rx.vrUh ↔ dist config.modulo rx.vrUr rx.vrUh ≠ 0 := by
  constructor
  · intro differ zero
    exact differ (dist_inj edges.ur edges.ur edges.uh ((dist_self _ _).trans zero.symm))
  · intro wide same
    rw [same, dist_self] at wide
    exact wide rfl

theorem inWindow_vrUh : rx.inWindow config rx.vrUr rx.vrUh rx.vrUh = if rx.vrUr ≠
    rx.vrUh then 2 else 3 := by
  simp only [vrUr_ne_iff edges]
  unfold Rx.inWindow
  simp only [relative_vrUr edges, relative_vrUh]
  by_cases wide : dist config.modulo rx.vrUr rx.vrUh = 0
  · rw [wide]
    simp
  · rw [if_neg (by omega), if_neg (by omega), if_neg (by omega), if_pos trivial, if_pos wide]

/-- The test for a window that is not empty. -/
theorem inWindow_open : rx.inWindow config rx.vrUr rx.vrUh rx.vrUh = 2 ↔ rx.vrUr ≠ rx.vrUh := by
  rw [inWindow_vrUh edges]
  split
  · exact iff_of_true rfl ‹_›
  · exact iff_of_false (by decide) ‹_›

include valid

theorem outside_iff : rx.inReorderingWindow config sn < 0 ↔
    dist config.modulo rx.vrUr rx.vrUh ≤ dist config.modulo rx.vrUr sn ∧
      dist config.modulo rx.vrUr sn < dist config.modulo rx.vrUr rx.vrUh + config.windowSize := by
  have double := config.modulo_eq
  have width := edges.width
  have short := dist_lt edges.ur (x := sn)
  obtain ⟨above, ahead, below⟩ := relative_dist edges valid
  unfold Rx.inReorderingWindow
  simp only
  split <;> omega

theorem below_iff :
    (rx.inWindow config (rx.modulus config) sn rx.vrUr = 1 ∨
      rx.inWindow config (rx.modulus config) sn rx.vrUr = 0) ↔
      dist config.modulo rx.vrUr rx.vrUh + config.windowSize ≤ dist config.modulo rx.vrUr sn := by
  have double := config.modulo_eq
  have width := edges.width
  have short := dist_lt edges.ur (x := sn)
  obtain ⟨above, ahead, below⟩ := relative_dist edges valid
  rw [inWindow_below, relative_modulus, relative_vrUr edges]
  omega

/-- The second test, on an SN in the window: the SN is above VR(UR). -/
theorem between_iff (inside : dist config.modulo rx.vrUr sn < dist config.modulo rx.vrUr rx.vrUh) :
    rx.inWindow config rx.vrUr sn rx.vrUh = 0 ↔ 0 < dist config.modulo rx.vrUr sn := by
  obtain ⟨above, -, -⟩ := relative_dist edges valid
  unfold Rx.inWindow
  simp only [relative_vrUr edges, relative_vrUh, above inside]
  split
  · omega
  · split
    · omega
    · split <;> split <;> omega

/-- The test on VR(UX), which is in the window or at its end: VR(UR) has reached it. It misses
that all three are equal. -/
theorem reached_iff (inside : ¬ rx.inReorderingWindow config sn < 0 ∨ sn = rx.vrUh) :
    (rx.inWindow config rx.vrUr sn rx.vrUh = -2 ∨ rx.inWindow config rx.vrUr sn rx.vrUh = 1) ↔
      ¬ (dist config.modulo rx.vrUr sn ≤ dist config.modulo rx.vrUr rx.vrUh ∧
        (0 < dist config.modulo rx.vrUr sn ∨ sn = rx.vrUh)) := by
  have double := config.modulo_eq
  have width := edges.width
  have short := dist_lt edges.ur (x := sn)
  obtain ⟨above, -, below⟩ := relative_dist edges valid
  by_cases highest : sn = rx.vrUh
  · rw [highest, inWindow_vrUh edges]
    simp only [Nat.le_refl, or_true, and_self, not_true, iff_false]
    split <;> decide
  · have window := inside.resolve_right highest
    rw [outside_iff edges valid] at window
    have apart : dist config.modulo rx.vrUr sn ≠ dist config.modulo rx.vrUr rx.vrUh :=
      fun same => highest (dist_inj edges.ur valid edges.uh same)
    unfold Rx.inWindow
    simp only [relative_vrUr edges, relative_vrUh, highest, or_false]
    split
    · omega
    · split
      · omega
      · split
        · split <;> omega
        · split <;> omega

end Tests

end OpenAir.Rlc.Um
