import LayeredConfig.Proofs.Value.Kinds
/-!
# Durations, exactly

A duration splits its length into days, seconds and microseconds, and the split loses nothing: a length in range has
exactly one duration of that length (`Duration.ofMicros?_eq_some_iff`), negative ones included. So a stored value that
lasts so many microseconds (`Value.Lasts`) reads as a duration that is exactly as long, and one that lasts no time at
all is a mismatch, alone (`Value.readDuration_eq_ok_iff`) or in a list (`Value.readDurations_eq_ok_iff`).
-/
namespace LayeredConfig

namespace Duration

variable {n : Int} {d : Duration}

theorem toMicros_of_ofMicros? (h : ofMicros? n = some d) : d.toMicros = n := by
  simp only [ofMicros?] at h
  split at h
  · cases h
    simp only [toMicros, dayMicros]
    omega
  · cases h

theorem ofMicros?_toMicros (d : Duration) : ofMicros? d.toMicros = some d := by
  obtain ⟨days, seconds, micros, hmin, hmax, hseconds, hmicros⟩ := d
  have hdays : ((days * 86400 + seconds) * 1000000 + micros) / dayMicros = days := by
    simp only [dayMicros]
    omega
  have hrest : (((days * 86400 + seconds) * 1000000 + micros) % dayMicros).toNat = seconds * 1000000 + micros := by
    simp only [dayMicros]
    omega
  have hseconds' : (seconds * 1000000 + micros) / 1000000 = seconds := by omega
  have hmicros' : (seconds * 1000000 + micros) % 1000000 = micros := by omega
  simp only [ofMicros?, toMicros, hdays, hrest, hseconds', hmicros']
  exact dif_pos ⟨hmin, hmax⟩

/-- Nothing is lost where a length is split into days, seconds and microseconds. -/
theorem ofMicros?_eq_some_iff : ofMicros? n = some d ↔ d.toMicros = n :=
  ⟨toMicros_of_ofMicros?, fun h => h ▸ ofMicros?_toMicros d⟩

theorem eq_of_toMicros {d e : Duration} (h : d.toMicros = e.toMicros) : d = e :=
  Option.some.inj (by rw [← ofMicros?_toMicros, h, ofMicros?_toMicros])

theorem ofMicros?_isSome_iff :
    (ofMicros? n).isSome ↔ -86399999913600000000 ≤ n ∧ n ≤ 86399999999999999999 := by
  simp only [ofMicros?]
  split
  · rename_i h
    simp only [dayMicros] at h
    simp only [Option.isSome_some, true_iff]
    omega
  · rename_i h
    simp only [dayMicros] at h
    simp only [Option.isSome_none, Bool.false_eq_true, false_iff]
    omega

/-- Whether a duration can be so many milliseconds long. -/
def HoldsMillis (n : Int) : Prop := -86399999913600000 ≤ n ∧ n ≤ 86399999999999999

theorem ofMillis?_eq_some_iff : ofMillis? n = some d ↔ d.toMicros = n * 1000 := ofMicros?_eq_some_iff

/-- The last whole millisecond is not the last microsecond, but the first one is the first. -/
theorem ofMillis?_isSome_iff : (ofMillis? n).isSome ↔ HoldsMillis n := by
  rw [ofMillis?, ofMicros?_isSome_iff, HoldsMillis]
  omega

theorem toNanos_eq (d : Duration) : d.toNanos = d.toMicros * 1000 := by
  rw [toNanos, toMicros]
  omega

end Duration

/-! ## Reading durations -/

/-- Whether a stored value lasts so many microseconds: a duration for as long as it is, and a whole number for that many
    milliseconds, if a duration can be so long. -/
inductive Value.Lasts : Value → Int → Prop
  | duration (d : Duration) : Lasts (.scalar (.duration d)) d.toMicros
  | millis {n : Int} (h : Duration.HoldsMillis n) : Lasts (.scalar (.int n)) (n * 1000)

section Items

variable {α : Type} {readOne : String → α → Outcome Scalar} {path : String} {i : Nat} {items front back : List α} {v : α}
  {rs : List Scalar} {f : Failure}

theorem readItems_fails_at (hfront : readItems readOne path i front = .ok rs)
    (hv : readOne (itemLabel path (i + front.length)) v = .error f) :
    readItems readOne path i (front ++ v :: back) = .error f := by
  induction front generalizing i rs with
  | nil =>
    rw [List.length_nil, Nat.add_zero] at hv
    rw [List.nil_append, readItems, hv]
  | cons head front ih =>
    rw [readItems] at hfront
    split at hfront
    · cases hfront
    · rename_i s hs
      obtain ⟨rs, hrs, _⟩ := Outcome.map_eq_ok_iff.mp hfront
      rw [List.length_cons, ← Nat.add_assoc, Nat.add_right_comm] at hv
      rw [List.cons_append, readItems, hs, ih hrs hv]
      rfl

theorem exists_of_readItems_error (h : readItems readOne path i items = .error f) :
    ∃ front v back, items = front ++ v :: back ∧ (∃ rs, readItems readOne path i front = .ok rs) ∧
      readOne (itemLabel path (i + front.length)) v = .error f := by
  induction items generalizing i with
  | nil => cases h
  | cons head rest ih =>
    rw [readItems] at h
    split at h
    · rename_i g hg
      cases h
      exact ⟨[], head, rest, rfl, ⟨[], rfl⟩, hg⟩
    · rename_i s hs
      obtain ⟨front, v, back, rfl, ⟨rs, hrs⟩, hv⟩ := ih (Outcome.map_eq_error_iff.mp h)
      refine ⟨head :: front, v, back, rfl, ⟨s :: rs, ?_⟩, ?_⟩
      · rw [readItems, hs, hrs]
        rfl
      · rwa [List.length_cons, ← Nat.add_assoc, Nat.add_right_comm]

theorem readItems_eq_error_iff :
    readItems readOne path i items = .error f ↔ ∃ front v back, items = front ++ v :: back ∧
      (∃ rs, readItems readOne path i front = .ok rs) ∧ readOne (itemLabel path (i + front.length)) v = .error f := by
  refine ⟨exists_of_readItems_error, ?_⟩
  rintro ⟨front, v, back, rfl, ⟨rs, hrs⟩, hv⟩
  exact readItems_fails_at hrs hv

end Items

namespace Value

variable {v : Value} {r : Scalar} {path : String} {f : Failure}

/-- A stored value reads as a duration that is as long as it lasts. -/
theorem readDuration_eq_ok_iff : v.readScalar .duration path = .ok r ↔ ∃ d, r = .duration d ∧ v.Lasts d.toMicros := by
  rw [readScalar_eq_ok_iff]
  constructor
  · rintro ⟨s, rfl, hread⟩
    cases s with
    | duration d =>
      cases hread
      exact ⟨d, rfl, .duration d⟩
    | int n =>
      rw [ScalarKind.read] at hread
      split at hread
      · rename_i d hd
        cases hread
        refine ⟨d, rfl, ?_⟩
        rw [Duration.ofMillis?_eq_some_iff.mp hd]
        exact .millis (Duration.ofMillis?_isSome_iff.mp (Option.isSome_of_eq_some hd))
      · cases hread
    | _ => cases hread
  · rintro ⟨d, rfl, hlasts⟩
    generalize hk : d.toMicros = k at hlasts
    cases hlasts with
    | duration d' =>
      obtain rfl : d = d' := Duration.eq_of_toMicros hk
      exact ⟨_, rfl, rfl⟩
    | @millis n hn =>
      refine ⟨_, rfl, ?_⟩
      rw [ScalarKind.read, Duration.ofMillis?_eq_some_iff.mpr hk]

theorem readDuration_of_lasts (path : String) {k : Int} (h : v.Lasts k) :
    ∃ d : Duration, d.toMicros = k ∧ v.readScalar .duration path = .ok (.duration d) := by
  cases h with
  | duration d => exact ⟨d, rfl, readDuration_eq_ok_iff.mpr ⟨d, rfl, .duration d⟩⟩
  | millis hn =>
    obtain ⟨d, hd⟩ := Option.isSome_iff_exists.mp (Duration.ofMillis?_isSome_iff.mpr hn)
    have hlength := Duration.ofMillis?_eq_some_iff.mp hd
    refine ⟨d, hlength, readDuration_eq_ok_iff.mpr ⟨d, rfl, ?_⟩⟩
    rw [hlength]
    exact .millis hn

theorem exists_readDuration_iff (path : String) : (∃ r, v.readScalar .duration path = .ok r) ↔ ∃ k, v.Lasts k := by
  constructor
  · rintro ⟨r, hr⟩
    obtain ⟨d, _, hlasts⟩ := readDuration_eq_ok_iff.mp hr
    exact ⟨d.toMicros, hlasts⟩
  · rintro ⟨k, hlasts⟩
    obtain ⟨d, _, hd⟩ := readDuration_of_lasts path hlasts
    exact ⟨_, hd⟩

theorem readDuration_fails (h : v.readScalar .duration path = .error f) : f = v.mismatch (.scalar .duration) path := by
  cases v with
  | scalar s =>
    rw [readScalar] at h
    cases hread : ScalarKind.duration.read s with
    | ok r =>
      rw [hread] at h
      cases h
    | error misfit =>
      have hother : misfit = .otherType := by
        cases s with
        | int n =>
          rw [ScalarKind.read] at hread
          split at hread
          · cases hread
          · exact (Except.error.inj hread).symm
        | _ => cases hread <;> rfl
      rw [hread, hother] at h
      exact (Except.error.inj h).symm
  | _ => exact (Except.error.inj h).symm

theorem readDuration_eq_error_iff :
    v.readScalar .duration path = .error f ↔ (∀ k, ¬ v.Lasts k) ∧ f = v.mismatch (.scalar .duration) path := by
  constructor
  · intro h
    refine ⟨fun k hk => ?_, readDuration_fails h⟩
    obtain ⟨r, hr⟩ := (exists_readDuration_iff path).mpr ⟨k, hk⟩
    rw [hr] at h
    cases h
  · rintro ⟨hnot, rfl⟩
    cases hread : v.readScalar .duration path with
    | ok r =>
      obtain ⟨k, hk⟩ := (exists_readDuration_iff path).mp ⟨r, hread⟩
      exact absurd hk (hnot k)
    | error g => rw [readDuration_fails hread]

theorem read_duration (v : Value) (path : String) :
    v.read (.scalar .duration) path = (v.readScalar .duration path).map .scalar := by
  cases v <;> rfl

/-- A list reads as durations that are as long as its elements last. -/
theorem readDurations_eq_ok_iff {items : List Value} {i : Nat} {rs : List Scalar} :
    readItems (readScalar .duration) path i items = .ok rs ↔
      List.Forall₂ (fun v r => ∃ d, r = .duration d ∧ v.Lasts d.toMicros) items rs := by
  induction items generalizing i rs with
  | nil => simp [readItems, eq_comm]
  | cons v rest ih =>
    rw [readItems, List.forall₂_cons_left_iff]
    cases hv : v.readScalar .duration (itemLabel path i) with
    | error f =>
      have hnot := (readDuration_eq_error_iff.mp hv).1
      constructor
      · intro h
        cases h
      · rintro ⟨_, _, ⟨d, _, hlasts⟩, _⟩
        exact absurd hlasts (hnot _)
    | ok r =>
      rw [Outcome.map_eq_ok_iff]
      constructor
      · rintro ⟨rs, hrs, rfl⟩
        exact ⟨r, rs, readDuration_eq_ok_iff.mp hv, ih.mp hrs, rfl⟩
      · rintro ⟨r', rs, hr', hrs, rfl⟩
        obtain rfl : r = r' := Except.ok.inj (hv.symm.trans (readDuration_eq_ok_iff.mpr hr'))
        exact ⟨rs, ih.mpr hrs, rfl⟩

theorem exists_readDurations_iff {items : List Value} {i : Nat} :
    (∃ rs, readItems (readScalar .duration) path i items = .ok rs) ↔ ∀ v ∈ items, ∃ k, v.Lasts k := by
  induction items generalizing i with
  | nil => simp [readItems]
  | cons v rest ih =>
    rw [List.forall_mem_cons, ← ih (i := i + 1), ← exists_readDuration_iff (itemLabel path i), readItems]
    cases v.readScalar .duration (itemLabel path i) with
    | error f => simp
    | ok r => simp [Outcome.map_eq_ok_iff]

theorem readDurations_eq_error_iff {items : List Value} :
    readItems (readScalar .duration) path 0 items = .error f ↔ ∃ front v back, items = front ++ v :: back ∧
      (∀ u ∈ front, ∃ k, u.Lasts k) ∧ (∀ k, ¬ v.Lasts k) ∧
      f = v.mismatch (.scalar .duration) (itemLabel path front.length) := by
  simp only [readItems_eq_error_iff, exists_readDurations_iff, readDuration_eq_error_iff, Nat.zero_add]

end Value
end LayeredConfig
