import Mathlib.Data.Rat.Floor
import InferenceGateway.Python.Dumps

/-!
# `time.gmtime` and `time.strftime`

The time of day and the date of a number of seconds since 1970, in UTC: days are counted in eras
of 400 years that start on the first of March, so that the leap day is the last of its year.
-/

namespace Py

/-- Year, month and day of a number of days since 1970. -/
def civil (days : ℤ) : ℤ × ℤ × ℤ :=
  let z := days + 719468
  let era := z / 146097
  let doe := z % 146097
  let yoe := (doe - doe / 1460 + doe / 36524 - doe / 146096) / 365
  let doy := doe - (365 * yoe + yoe / 4 - yoe / 100)
  let mp := (5 * doy + 2) / 153
  let month := if mp < 10 then mp + 3 else mp - 9
  (yoe + 400 * era + (if month ≤ 2 then 1 else 0), month, doy - (153 * mp + 2) / 5 + 1)

/-- A number by two digits at least. -/
def twoDigits (n : ℤ) : Str := (if n < 10 then [48] else []) ++ intText n

/-- `time.strftime("%Y-%m-%dT%H:%M:%SZ", time.gmtime(t))`. -/
def isoTime (t : ℚ) : Str :=
  let s := ⌊t⌋
  let (year, month, day) := civil (s / 86400)
  intText year ++ str "-" ++ twoDigits month ++ str "-" ++ twoDigits day ++ str "T" ++
    twoDigits (s % 86400 / 3600) ++ str ":" ++ twoDigits (s % 3600 / 60) ++ str ":" ++
    twoDigits (s % 60) ++ str "Z"

/-- The last second of a leap day, and one before 1970. -/
example : isoTime (1709251199 + 1 / 2) = str "2024-02-29T23:59:59Z" ∧
    isoTime (-1) = str "1969-12-31T23:59:59Z" := by decide +kernel

theorem ascii_of_mem_isoTime {t : ℚ} {c : ℕ} (h : c ∈ isoTime t) : c < 128 := by
  have hint {n : ℤ} (hc : c ∈ intText n) : c < 128 := by
    have hnum := Json.isNumeral_of_mem_intText hc
    simp only [Json.isNumeral, Json.isDigit, Bool.or_eq_true, Bool.and_eq_true, decide_eq_true_eq,
      beq_iff_eq] at hnum
    omega
  have htwo {n : ℤ} (hc : c ∈ twoDigits n) : c < 128 := by
    rcases List.mem_append.mp hc with hc | hc
    · split at hc
      · rw [List.mem_singleton.mp hc]
        decide
      · cases hc
    · exact hint hc
  have hlit (s : String) (hs : ∀ c ∈ str s, c < 128) (hc : c ∈ str s) : c < 128 := hs c hc
  unfold isoTime at h
  simp only [List.mem_append] at h
  rcases h with ((((((((((h | h) | h) | h) | h) | h) | h) | h) | h) | h) | h) | h
  · exact hint h
  · exact hlit "-" (by decide) h
  · exact htwo h
  · exact hlit "-" (by decide) h
  · exact htwo h
  · exact hlit "T" (by decide) h
  · exact htwo h
  · exact hlit ":" (by decide) h
  · exact htwo h
  · exact hlit ":" (by decide) h
  · exact htwo h
  · exact hlit "Z" (by decide) h

end Py
