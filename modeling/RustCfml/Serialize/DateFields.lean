import RustCfml.Serialize.Dates

/-!
# Setting a field of a date

`set_field` writes a value into one field of the wall clock and lets it roll into the others. **The
durations it adds up are checked, the numbers before them are not**: twelve times a year, a month
and a day less one. A count of milliseconds is clamped, and a date that cannot be shown is taken for
the start of 1970. -/

namespace RustCfml.Serialize

open Gregorian Option

inductive DateField where
  | year
  | month
  | day
  | hour
  | minute
  | second
  | millisecond
deriving DecidableEq

def DateField.write (value : Int) (c : Clock) : DateField → Clock
  | .year => { c with year := value }
  | .month => { c with month := value }
  | .day => { c with day := value }
  | .hour => { c with hour := value }
  | .minute => { c with minute := value }
  | .second => { c with second := value }
  | .millisecond => c

abbrev Fits64 (n : Int) : Prop := -9223372036854775808 ≤ n ∧ n ≤ 9223372036854775807

/-- An operation on `i64`: none where it overflows. -/
def checked64 (n : Int) : Option Int := if Fits64 n then some n else none

def saturating64 (n : Int) : Int := max (-9223372036854775808) (min n 9223372036854775807)

/-- A `Duration` in nanoseconds: its milliseconds are those of `i64`. -/
def tryDuration (nanos : Int) : Option Int :=
  if -9223372036854775807000000 ≤ nanos ∧ nanos ≤ 9223372036854775807000000 then some nanos
  else none

def addDuration (sum : Int) (nanos : Int) : Option Int :=
  do tryDuration (sum + (← tryDuration nanos))

def offset (days hours minutes seconds nanos : Int) : Option Int := do
  let sum ← tryDuration (days * 86400000000000)
  let sum ← addDuration sum (hours * 3600000000000)
  let sum ← addDuration sum (minutes * 60000000000)
  let sum ← addDuration sum (seconds * 1000000000)
  addDuration sum nanos

def addSigned (base nanos : Int) : Option Int :=
  if (fromTimestamp ((base + nanos) / 1000000000)).isSome then some (base + nanos) else none

namespace Zone

variable (z : Zone) (d : CfmlDate) (field : DateField) (value : Int)

def atWall (nanos : Int) : CfmlDate where
  secs := z.localToEpochSecs (nanos / 1000000000)
  nanos := (nanos % 1000000000).toNat
  nanos_lt := by omega

def clockIn : Clock := Clock.ofTimestamp (z.localIn d)

abbrev InCalendar (year : Int) : Prop := -262143 ≤ year ∧ year ≤ 262142

/-- The wall clock with whatever the fields hold, read from the first of its month on. -/
def roll (c : Clock) (nanos : Int) : Option CfmlDate := do
  let total ← checked64 ((← checked64 (c.year * 12)) + (← checked64 (c.month - 1)))
  if InCalendar (total / 12) then
    let base := Clock.timestamp ⟨total / 12, total % 12 + 1, 1, 0, 0, 0⟩ * 1000000000
    match (offset (← checked64 (c.day - 1)) c.hour c.minute c.second nanos).bind
      (addSigned base) with
    | some wall => some (z.atWall wall)
    | none => some d
  else some d

def setField : Option CfmlDate :=
  z.roll d (field.write value (z.clockIn d))
    (if field = .millisecond then saturating64 (value * 1000000) else d.nanos)

/-- Lenient calendar arithmetic over the integers. -/
def lenientRoll (c : Clock) (nanos : Int) : CfmlDate :=
  let total := c.year * 12 + (c.month - 1)
  let wall :=
    Clock.timestamp { c with year := total / 12, month := total % 12 + 1 } * 1000000000 + nanos
  if (fromTimestamp (wall / 1000000000)).isSome then z.atWall wall else d

def lenientField : CfmlDate :=
  z.lenientRoll d (field.write value (z.clockIn d))
    (if field = .millisecond then value * 1000000 else d.nanos)

/-- The wall clock is the date's, nothing is clamped, nothing overflows, and the result is the exact
one. -/
structure SetsExactly : Prop where
  wall : z.localIn d = z.wallOf d
  unclamped : field = .millisecond → saturating64 (value * 1000000) = value * 1000000
  result : z.setField d field value = some (z.lenientField d field value)

/-- The values of a field that the unchecked steps leave room for. -/
def HasRoom (c : Clock) (value : Int) : DateField → Prop
  | .year => Fits64 (value * 12) ∧ Fits64 (value * 12 + (c.month - 1))
  | .month => Fits64 (value - 1) ∧ Fits64 (c.year * 12 + (value - 1))
  | .day => Fits64 (value - 1)
  | .millisecond => Fits64 (value * 1000000)
  | _ => True

/-- All but one of the fields below the month are those of a clock. -/
def OneWild (c : Clock) (nanos : Int) : Prop :=
  let day := 1 ≤ c.day ∧ c.day ≤ 31
  let hour := 0 ≤ c.hour ∧ c.hour ≤ 23
  let minute := 0 ≤ c.minute ∧ c.minute ≤ 59
  let second := 0 ≤ c.second ∧ c.second ≤ 59
  let nano := 0 ≤ nanos ∧ nanos < 1000000000
  hour ∧ minute ∧ second ∧ nano ∨ day ∧ minute ∧ second ∧ nano ∨ day ∧ hour ∧ second ∧ nano ∨
    day ∧ hour ∧ minute ∧ nano ∨ day ∧ hour ∧ minute ∧ second

def Huge (nanos : Int) : Prop := nanos < -9223372036854775807000000 ∨
    9223372036854775807000000 < nanos

lemma bind_addDuration {sum nanos : Int} {f : Int → Option Int} {r : Option Int}
    (hout : Huge nanos ∨ Huge (sum + nanos) → r = none) (hf : f (sum + nanos) = r) :
    (addDuration sum nanos).bind f = r := by
  simp only [Huge] at hout
  simp only [addDuration, tryDuration, bind_eq_bind]
  split_ifs with h1
  · rw [bind_some]
    split_ifs with h2
    · exact hf
    · exact (hout (by omega)).symm
  · exact (hout (by omega)).symm

/-- **The checks on the way do not matter**: what they refuse ends outside the calendar. -/
theorem offset_eq {base nanos : Int} {c : Clock} (h : OneWild c nanos)
    (hbase : minStamp * 1000000000 ≤ base ∧ base ≤ maxStamp * 1000000000) :
    (offset (c.day - 1) c.hour c.minute c.second nanos).bind (addSigned base) =
      addSigned base
      ((c.day - 1) * 86400000000000 + c.hour * 3600000000000 + c.minute * 60000000000 +
        c.second * 1000000000 + nanos) := by
  simp only [OneWild] at h
  obtain ⟨a, ha⟩ : ∃ a, a = (c.day - 1) * 86400000000000 := ⟨_, rfl⟩
  obtain ⟨b, hb⟩ : ∃ b, b = c.hour * 3600000000000 := ⟨_, rfl⟩
  obtain ⟨e, he⟩ : ∃ e, e = c.minute * 60000000000 := ⟨_, rfl⟩
  obtain ⟨g, hg⟩ : ∃ g, g = c.second * 1000000000 := ⟨_, rfl⟩
  have hstamps := stamps
  have hout : Huge a ∨ (Huge b ∨ Huge (a + b)) ∨ (Huge e ∨ Huge (a + b + e)) ∨
      (Huge g ∨ Huge (a + b + e + g)) ∨ (Huge nanos ∨ Huge (a + b + e + g + nanos)) →
      addSigned base (a + b + e + g + nanos) = none := by
    intro hhuge
    simp only [Huge] at hhuge
    refine if_neg ?_
    rw [fromTimestamp, if_neg (by omega)]
    simp
  simp only [offset, bind_eq_bind, Option.bind_assoc, ← ha, ← hb, ← he, ← hg]
  by_cases ha' : Huge a
  · rw [hout (.inl ha'), tryDuration, if_neg (by simp only [Huge] at ha'; omega)]
    rfl
  · have htry : tryDuration a = some a := if_pos (by simp only [Huge] at ha'; omega)
    rw [htry, bind_some]
    exact bind_addDuration (fun hh => hout (.inr (.inl hh)))
      (bind_addDuration (fun hh => hout (.inr (.inr (.inl hh))))
        (bind_addDuration (fun hh => hout (.inr (.inr (.inr (.inl hh)))))
          (bind_addDuration (fun hh => hout (.inr (.inr (.inr (.inr hh))))) rfl)))

lemma shown_of_wall (h : z.localIn d = z.wallOf d) : minStamp ≤ z.wallOf d ∧
    z.wallOf d ≤ maxStamp := by
  by_contra hout
  rw [localIn, ← wallOf, fromTimestamp, if_neg hout, getD_none] at h
  have := stamps
  omega

variable {z d} {c : Clock} {nanos : Int}

lemma fits_of_checked64 {n : Int} {f : Int → Option CfmlDate} {r : CfmlDate}
    (h : (checked64 n).bind f = some r) : Fits64 n := by
  by_contra hn
  rw [checked64, if_neg hn] at h
  cases h

lemma fits_of_roll {r : CfmlDate} (h : z.roll d c nanos = some r) : Fits64 (c.year * 12) ∧
    Fits64 (c.month - 1) ∧
    Fits64 (c.year * 12 + (c.month - 1)) ∧
    (InCalendar ((c.year * 12 + (c.month - 1)) / 12) → Fits64 (c.day - 1)) := by
  simp only [roll, bind_eq_bind] at h
  have h1 := fits_of_checked64 h
  rw [checked64, if_pos h1, bind_some] at h
  have h2 := fits_of_checked64 h
  rw [checked64, if_pos h2, bind_some] at h
  have h3 := fits_of_checked64 h
  rw [checked64, if_pos h3, bind_some] at h
  refine ⟨h1, h2, h3, fun hyear => ?_⟩
  rw [if_pos hyear] at h
  exact fits_of_checked64 h

lemma roll_eq (hyear : Fits64 (c.year * 12)) (hmonth : Fits64 (c.month - 1))
    (htotal : Fits64 (c.year * 12 + (c.month - 1))) (hday : Fits64 (c.day - 1))
    (hwild : OneWild c nanos)
    (hout : ¬InCalendar ((c.year * 12 + (c.month - 1)) / 12) →
      (1 ≤ c.day ∧ c.day ≤ 31) ∧ (0 ≤ c.hour ∧ c.hour ≤ 23) ∧ (0 ≤ c.minute ∧ c.minute ≤ 59) ∧
        (0 ≤ c.second ∧ c.second ≤ 59) ∧ 0 ≤ nanos ∧ nanos < 1000000000) :
    z.roll d c nanos = some (z.lenientRoll d c nanos) := by
  simp only [roll, lenientRoll, bind_eq_bind, checked64, if_pos hyear, if_pos hmonth, if_pos htotal,
    bind_some]
  have hm : 1 ≤ (c.year * 12 + (c.month - 1)) % 12 + 1 ∧
    (c.year * 12 + (c.month - 1)) % 12 + 1 ≤ 12 := by omega
  generalize (c.year * 12 + (c.month - 1)) % 12 + 1 = month at *
  generalize (c.year * 12 + (c.month - 1)) / 12 = year at *
  by_cases hy : InCalendar year
  · have hfirst : Clock.Lenient ⟨year, month, 1, 0, 0, 0⟩ :=
      ⟨hm, by simp, by simp, by simp, by simp⟩
    have hbase := (range_iff_year hfirst).2 hy
    have hsum :
      Clock.timestamp ⟨year, month, 1, 0, 0, 0⟩ * 1000000000 + ((c.day - 1) * 86400000000000 +
        c.hour * 3600000000000 + c.minute * 60000000000 + c.second * 1000000000 + nanos) =
        Clock.timestamp { c with year := year, month := month } * 1000000000 + nanos := by
      simp only [Clock.timestamp, daysOf]
      omega
    rw [if_pos hy, if_pos hday, bind_some, offset_eq hwild (by omega), addSigned, hsum]
    split_ifs <;> rfl
  · obtain ⟨hd, hh, hi, hs, hn⟩ := hout hy
    have hlenient : Clock.Lenient { c with year := year, month := month } := ⟨hm, hd, hh, hi, hs⟩
    have hwall :
      (Clock.timestamp { c with year := year, month := month } * 1000000000 + nanos) / 1000000000 =
        Clock.timestamp { c with year := year, month := month } := by omega
    rw [if_neg hy, hwall, fromTimestamp, if_neg fun hr => hy ((range_iff_year hlenient).1 hr)]
    rfl

lemma clockIn_year (h : minStamp ≤ z.wallOf d ∧ z.wallOf d ≤ maxStamp) :
    InCalendar (z.clockIn d).year := by
  refine (range_iff_year (Clock.valid_ofTimestamp _).lenient).1 ?_
  rw [Clock.timestamp_ofTimestamp, z.localIn_of_shown h]
  exact h

/-- **A field is set as asked exactly when** the calendar library shows the wall clock and the field
has room for the value. -/
theorem setsExactly_iff (z : Zone) (d : CfmlDate) (field : DateField) (value : Int) :
    z.SetsExactly d field value ↔
      (minStamp ≤ z.wallOf d ∧ z.wallOf d ≤ maxStamp) ∧ HasRoom (z.clockIn d) value field := by
  have hclock : (z.clockIn d).Lenient := (Clock.valid_ofTimestamp _).lenient
  have h1 := hclock.month
  have h2 := hclock.day
  have h3 := hclock.hour
  have h4 := hclock.minute
  have h5 := hclock.second
  have h6 := d.nanos_lt
  constructor
  · rintro ⟨hwall, hclamp, hresult⟩
    have hshown := shown_of_wall z d hwall
    have hyear := clockIn_year hshown
    obtain ⟨hy, hm, ht, hd⟩ := fits_of_roll hresult
    refine ⟨hshown, ?_⟩
    cases field with
    | year => exact ⟨hy, ht⟩
    | month => exact ⟨hm, ht⟩
    | day => exact hd (by simp only [DateField.write]; omega)
    | millisecond =>
      have := hclamp rfl
      simp only [saturating64] at this
      simp only [HasRoom]
      omega
    | _ => trivial
  · rintro ⟨hshown, hroom⟩
    have hyear := clockIn_year hshown
    have hclamp : field = .millisecond → saturating64 (value * 1000000) = value * 1000000 := by
      rintro rfl
      simp only [HasRoom] at hroom
      simp only [saturating64]
      omega
    refine ⟨z.localIn_of_shown hshown, hclamp, ?_⟩
    rw [setField, lenientField, ite_congr rfl hclamp fun _ => rfl]
    cases field
    all_goals
      simp only [HasRoom, reduceCtorEq, if_true, if_false] at hroom ⊢
      apply roll_eq
      all_goals simp only [DateField.write, OneWild]; omega

end Zone

/-- 316 years of milliseconds become the 292 that fit into nanoseconds. -/
theorem milliseconds_clamped : let d : CfmlDate := ⟨0, 0, by decide⟩
    ¬ utcZone.SetsExactly d .millisecond 10000000000000 ∧
      utcZone.setField d .millisecond 10000000000000 = some ⟨9223372036, 854775807, by decide⟩ ∧
      utcZone.lenientField d .millisecond 10000000000000 = ⟨10000000000, 0, by decide⟩ :=
  ⟨fun h => absurd (h.unclamped rfl) (by decide), by decide +kernel, by decide +kernel⟩

end RustCfml.Serialize
