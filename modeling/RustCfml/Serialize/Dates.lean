import RustCfml.Lib.Gregorian
import RustCfml.Common.Key

/-!
# Dates: the wall clock and back

**Which dates come back is exactly this** (`makeDate_localIn_iff`, with `ReadsBack`). The zone's
rules come from a time-zone database outside the repository, so a `Zone` carries what that database
says about its own answers.
-/

namespace RustCfml.Serialize

open Gregorian Option

abbrev Text := List Char

/-! ## Zones -/

inductive LocalResult where
  | single (offset : Int)
  | ambiguous (first second : Int)
  | none

@[local simp] def LocalResult.offsets : LocalResult → List Int
  | .single o => [o]
  | .ambiguous a b => [a, b]
  | .none => []

/-- A zone of the database: its name, its offset from UTC at an instant, its standard offset today,
and the offsets of a wall clock. -/
structure Zone where
  name : Text
  utcOffset : Int → Int
  baseOffset : Int
  localOffset : Int → LocalResult
  utcOffset_range : ∀ t, -86400 < utcOffset t ∧ utcOffset t < 86400
  baseOffset_range : -86400 < baseOffset ∧ baseOffset < 86400
  localOffset_exact : ∀ wall o, o ∈ (localOffset wall).offsets ↔ utcOffset (wall - o) = o

def utcZone : Zone where
  name := "UTC".toList
  utcOffset _ := 0
  baseOffset := 0
  localOffset _ := .single 0
  utcOffset_range _ := by decide
  baseOffset_range := by decide
  localOffset_exact wall o := by simp [eq_comm]

/-- The first and the last second the calendar library can show. -/
def minStamp : Int := Clock.timestamp ⟨-262143, 1, 1, 0, 0, 0⟩
def maxStamp : Int := Clock.timestamp ⟨262142, 12, 31, 23, 59, 59⟩

def fromTimestamp (secs : Int) : Option Int :=
  if minStamp ≤ secs ∧ secs ≤ maxStamp then some secs else none

def last1899MomentMs : Int := -2208859201000

/-! ## From the instant to the wall clock -/

/-- The instant of a date. Its kind, which decides how it prints, stands beside it where it is read
(`Value.date`). -/
structure CfmlDate where
  secs : Int
  nanos : Nat
  nanos_lt : nanos < 1000000000
deriving DecidableEq

namespace CfmlDate

def epochMillis (d : CfmlDate) : Int := d.secs * 1000 + d.nanos / 1000000

def AtMillis (d : CfmlDate) : Prop := d.nanos % 1000000 = 0

end CfmlDate

namespace Zone

variable (z : Zone)

def offsetSecsAt (epochMs : Int) : Int :=
  if epochMs ≤ last1899MomentMs then z.baseOffset
  else
    match fromTimestamp (epochMs / 1000) with
    | some secs => z.utcOffset secs
    | none => 0

/-- The wall clock of a date, in seconds; the library's default is the start of 1970. -/
def localIn (d : CfmlDate) : Int := (fromTimestamp (d.secs + z.offsetSecsAt d.epochMillis)).getD 0

def localToEpochSecs (wall : Int) : Int :=
  if wall * 1000 ≤ last1899MomentMs + 86400000 then wall - z.baseOffset
  else
    match z.localOffset wall with
    | .single o => wall - o
    | .ambiguous a b => max (wall - a) (wall - b)
    -- in a gap: the offset a day earlier
    | .none => wall - ((fromTimestamp (wall - 86400)).map z.utcOffset).getD 0

def toYear (y : Int) : Int :=
  if y < 100 then if y < 30 then y + 2000 else y + 1900 else y

def lenientWall (year month day hour minute second milli : Int) : CfmlDate :=
  let base :=
    if -262143 ≤ year ∧ year ≤ 262142 then Clock.timestamp ⟨year, month, 1, 0, 0, 0⟩ else 0
  let offsetMs := ((((day - 1) * 24 + hour) * 60 + minute) * 60 + second) * 1000 + milli
  let wallMs := base * 1000 + offsetMs
  let wallMs := if (fromTimestamp (wallMs / 1000)).isSome then wallMs else base * 1000
  { secs := z.localToEpochSecs (wallMs / 1000)
    nanos := (wallMs % 1000).toNat * 1000000
    nanos_lt := by omega }

def dayTooLarge (year month day : Int) : String :=
  let dim := daysInMonth year month
  s!"Day number [{day}] can not be greater than {dim} when month is {month} and year {year}"

def makeDate (year month day hour minute second milli : Int) : Except String CfmlDate :=
  let year := toYear year
  if month < 1 then .error s!"Month number [{month}] must be at least 1"
  else if month > 12 then .error s!"Month number [{month}] can not be greater than 12"
  else if day < 1 then .error s!"Day number [{day}] must be at least 1"
  else if hour < 0 then .error s!"Hour number [{hour}] must be at least 0"
  else if minute < 0 then .error s!"Minute number [{minute}] must be at least 0"
  else if second < 0 then .error s!"Second number [{second}] must be at least 0"
  else if milli < 0 then .error s!"Milli second number [{milli}] must be at least 0"
  else if hour > 24 then .error s!"Hour number [{hour}] can not be greater than 24"
  else if minute > 59 then .error s!"Minute number [{minute}] can not be greater than 59"
  else if second > 59 then .error s!"Second number [{second}] can not be greater than 59"
  else if ¬(-2147483648 ≤ year ∧ year < 2147483648) then
    .error s!"Year number [{year}] is out of range"
  else if day > daysInMonth year month then .error (dayTooLarge year month day)
  else .ok (z.lenientWall year month day hour minute second milli)

def makeDateOf (c : Clock) (milli : Int) : Except String CfmlDate :=
  z.makeDate c.year c.month c.day c.hour c.minute c.second milli

end Zone

/-! ## What the clock's own fields make -/

lemma fromTimestamp_of_range {secs : Int} (h : minStamp ≤ secs ∧ secs ≤ maxStamp) :
    fromTimestamp secs = some secs := if_pos h

lemma stamps : minStamp = -8334601228800 ∧ maxStamp = 8210266876799 := by decide

lemma range_iff_year {c : Clock} (hc : c.Lenient) :
    (minStamp ≤ c.timestamp ∧ c.timestamp ≤ maxStamp) ↔ (-262143 ≤ c.year ∧ c.year ≤ 262142) := by
  have hmin : minStamp ≤ c.timestamp ↔ _ := Clock.newYear_le_timestamp_iff hc (-262143)
  have hmax : maxStamp + 1 ≤ c.timestamp ↔ _ := Clock.newYear_le_timestamp_iff hc 262143
  omega

namespace Zone

variable (z : Zone)

def instantOf (c : Clock) (milli : Nat) (h : milli < 1000) : CfmlDate where
  secs := z.localToEpochSecs c.timestamp
  nanos := milli * 1000000
  nanos_lt := by omega

variable {c : Clock} {d : CfmlDate} {milli : Nat}

lemma lenientWall_eq (hc : c.Valid) (hy : -262143 ≤ c.year ∧ c.year ≤ 262142) (hm : milli < 1000) :
    z.lenientWall c.year c.month c.day c.hour c.minute c.second milli = z.instantOf c milli hm := by
  have hbase : Clock.timestamp ⟨c.year, c.month, 1, 0, 0, 0⟩ * 1000
      + (((((c.day - 1) * 24 + c.hour) * 60 + c.minute) * 60 + c.second) * 1000 + milli)
      = c.timestamp * 1000 + milli := by
    simp only [Clock.timestamp, daysOf]
    omega
  have hdiv : (c.timestamp * 1000 + milli) / 1000 = c.timestamp := by omega
  have hmod : ((c.timestamp * 1000 + milli) % 1000).toNat = milli := by omega
  simp only [lenientWall, if_pos hy, hbase, hdiv,
    fromTimestamp_of_range ((range_iff_year hc.lenient).2 hy), isSome_some, if_true, hmod]
  rfl

/-- A clock's fields pass every check but that of the day, which is made in the year `makeDate`
takes for the clock's. -/
lemma makeDateOf_checked (hc : c.Valid)
    (hy : -2147483648 ≤ toYear c.year ∧ toYear c.year < 2147483648) (milli : Nat) :
    z.makeDateOf c milli =
      if c.day > daysInMonth (toYear c.year) c.month then
        .error (dayTooLarge (toYear c.year) c.month c.day)
      else .ok (z.lenientWall (toYear c.year) c.month c.day c.hour c.minute c.second milli) := by
  have h1 := hc.month
  have h2 := hc.day
  have h3 := hc.hour
  have h4 := hc.minute
  have h5 := hc.second
  simp only [makeDateOf, makeDate]
  rw [if_neg (by omega), if_neg (by omega), if_neg (by omega), if_neg (by omega), if_neg (by omega),
    if_neg (by omega),
    if_neg (by omega), if_neg (by omega), if_neg (by omega), if_neg (by omega), if_neg (by omega)]

lemma makeDateOf_eq_ok_iff (hc : c.Valid) {year : Int} (hyear : toYear c.year = year)
    (hy : -262143 ≤ year ∧ year ≤ 262142) (hm : milli < 1000) (d : CfmlDate) :
    z.makeDateOf c milli = .ok d ↔
      c.day ≤ daysInMonth year c.month ∧ z.instantOf { c with year } milli hm = d := by
  rw [z.makeDateOf_checked hc (by omega) milli, hyear]
  split_ifs with hday
  · exact ⟨fun h => (nomatch h), fun h => absurd h.1 (by omega)⟩
  · have hvalid : Clock.Valid { c with year } :=
      ⟨hc.month, ⟨hc.day.1, by simp only; omega⟩, hc.hour, hc.minute, hc.second⟩
    have hwall := z.lenientWall_eq hvalid hy hm
    simp only at hwall
    rw [hwall, Except.ok.injEq]
    exact ⟨fun h => ⟨by omega, h⟩, fun h => h.2⟩

lemma localToEpochSecs_near (wall : Int) :
    wall - 86400 < z.localToEpochSecs wall ∧ z.localToEpochSecs wall < wall + 86400 := by
  have hoff : ∀ o ∈ (z.localOffset wall).offsets, -86400 < o ∧ o < 86400 := by
    intro o ho
    rw [← (z.localOffset_exact wall o).1 ho]
    exact z.utcOffset_range _
  have hbase := z.baseOffset_range
  unfold localToEpochSecs
  split_ifs with h
  · omega
  · cases hl : z.localOffset wall with
    | single o =>
      have := hoff o (by simp [hl])
      simp only
      omega
    | ambiguous a b =>
      have ha := hoff a (by simp [hl])
      have hb := hoff b (by simp [hl])
      simp only
      omega
    | none =>
      cases hf : fromTimestamp (wall - 86400) with
      | none => simp
      | some t =>
        have := z.utcOffset_range t
        simp
        omega

lemma offsetSecsAt_range (ms : Int) : -86400 < z.offsetSecsAt ms ∧ z.offsetSecsAt ms < 86400 := by
  unfold offsetSecsAt
  split_ifs with h
  · exact z.baseOffset_range
  · split
    · exact z.utcOffset_range _
    · omega

def wallOf (d : CfmlDate) : Int := d.secs + z.offsetSecsAt d.epochMillis

/-- **The dates `createDateTime` reads back.** The library can show the wall clock; the year has
three digits; before 1900 the offset shown is the standard one; and of two instants that show the
same wall clock the date is the later. -/
structure ReadsBack (d : CfmlDate) : Prop where
  shown : minStamp ≤ z.wallOf d ∧ z.wallOf d ≤ maxStamp
  year : 100 ≤ (Clock.ofTimestamp (z.wallOf d)).year
  standard : z.wallOf d * 1000 ≤ last1899MomentMs + 86400000 →
    z.offsetSecsAt d.epochMillis = z.baseOffset
  later : last1899MomentMs + 86400000 < z.wallOf d * 1000 → ∀ a b,
    z.localOffset (z.wallOf d) = .ambiguous a b → z.offsetSecsAt d.epochMillis = min a b

lemma localIn_of_shown (h : minStamp ≤ z.wallOf d ∧ z.wallOf d ≤ maxStamp) :
    z.localIn d = z.wallOf d := by
  rw [localIn, ← wallOf, fromTimestamp_of_range h, getD_some]

lemma epochMillis_div (d : CfmlDate) : d.epochMillis / 1000 = d.secs := by
  have := d.nanos_lt
  simp only [CfmlDate.epochMillis]
  omega

lemma offset_mem (h : minStamp ≤ z.wallOf d ∧ z.wallOf d ≤ maxStamp)
    (hlate : last1899MomentMs + 86400000 < z.wallOf d * 1000) :
    z.offsetSecsAt d.epochMillis ∈ (z.localOffset (z.wallOf d)).offsets := by
  have hbase := z.baseOffset_range
  have hnanos := d.nanos_lt
  rw [z.localOffset_exact, wallOf, Int.add_sub_cancel]
  by_cases hearly : d.epochMillis ≤ last1899MomentMs
  · have : z.offsetSecsAt d.epochMillis = z.baseOffset := if_pos hearly
    simp only [wallOf, this] at hlate
    simp only [CfmlDate.epochMillis] at hearly
    omega
  · have hoff : z.offsetSecsAt d.epochMillis
        = match fromTimestamp d.secs with
          | some secs => z.utcOffset secs
          | none => 0 := by
      rw [offsetSecsAt, if_neg hearly, epochMillis_div]
    by_cases hs : minStamp ≤ d.secs ∧ d.secs ≤ maxStamp
    · rw [hoff, fromTimestamp_of_range hs]
    · -- an instant outside the range is shown with no offset, and so is its wall clock
      have hzero : z.offsetSecsAt d.epochMillis = 0 := by rw [hoff, fromTimestamp, if_neg hs]
      rw [wallOf, hzero, Int.add_zero] at h
      exact absurd h hs

lemma localToEpochSecs_wallOf_iff (h : minStamp ≤ z.wallOf d ∧ z.wallOf d ≤ maxStamp) :
    z.localToEpochSecs (z.wallOf d) = d.secs ↔ (z.wallOf d * 1000 ≤ last1899MomentMs + 86400000 →
        z.offsetSecsAt d.epochMillis = z.baseOffset) ∧
      (last1899MomentMs + 86400000 < z.wallOf d * 1000 → ∀ a b,
        z.localOffset (z.wallOf d) = .ambiguous a b → z.offsetSecsAt d.epochMillis = min a b) := by
  have hwall : d.secs = z.wallOf d - z.offsetSecsAt d.epochMillis := by simp [wallOf]
  rw [localToEpochSecs]
  split_ifs with hearly
  · refine ⟨fun heq => ⟨fun _ => by omega, fun hlate => by omega⟩, fun ⟨hstd, _⟩ => ?_⟩
    have := hstd hearly
    omega
  · have hmem := z.offset_mem h (by omega)
    cases hl : z.localOffset (z.wallOf d) with
    | single o =>
      have ho : z.offsetSecsAt d.epochMillis = o := by simpa [hl] using hmem
      refine ⟨fun _ => ⟨fun he => absurd he hearly, fun _ a b hab => nomatch hab⟩, fun _ => ?_⟩
      simp only
      omega
    | ambiguous a b =>
      refine ⟨fun heq => ⟨fun he => absurd he hearly, fun _ a' b' hab => ?_⟩, fun ⟨_, hlater⟩ => ?_⟩
      · obtain ⟨rfl, rfl⟩ := LocalResult.ambiguous.inj hab
        simp only at heq
        omega
      · have := hlater (by omega) a b rfl
        simp only
        omega
    | none => simp [hl] at hmem

lemma makeDateOf_of_year (hc : c.Valid) (hy : 100 ≤ c.year ∧ c.year ≤ 262142) (hm : milli < 1000)
    (d : CfmlDate) :
    z.makeDateOf c milli = .ok d ↔ z.instantOf c milli hm = d := by
  rw [z.makeDateOf_eq_ok_iff hc (if_neg (by omega)) (by omega) hm]
  exact and_iff_right hc.day.2

lemma makeDateOf_late (hc : c.Valid) (hy : -262143 ≤ c.year ∧ c.year < 100) (hm : milli < 1000)
    (h : z.makeDateOf c milli = .ok d) : c.timestamp + 365 * 1900 * 86400 < d.secs + 86400 := by
  obtain ⟨n, hn, hto⟩ : ∃ n, (n = 1900 ∨ n = 2000) ∧ toYear c.year = c.year + n := by
    unfold toYear
    rw [if_pos hy.2]
    split
    · exact ⟨2000, by simp, rfl⟩
    · exact ⟨1900, by simp, rfl⟩
  obtain ⟨-, rfl⟩ := (z.makeDateOf_eq_ok_iff hc hto (by omega) hm d).1 h
  have hmoved := Clock.timestamp_addYears c (n := n) (by omega)
  have hnear := z.localToEpochSecs_near { c with year := c.year + n }.timestamp
  simp only [instantOf]
  omega

theorem makeDate_localIn_iff (hd : d.AtMillis) :
    z.makeDateOf (Clock.ofTimestamp (z.localIn d)) (d.nanos / 1000000 : Nat) = .ok d ↔
    z.ReadsBack d := by
  have hm : d.nanos / 1000000 < 1000 := by have := d.nanos_lt; omega
  have hnanos : d.nanos / 1000000 * 1000000 = d.nanos := by
    simp only [CfmlDate.AtMillis] at hd
    omega
  have hinstant : ∀ c : Clock, z.instantOf c (d.nanos / 1000000) hm = d ↔
      z.localToEpochSecs c.timestamp = d.secs := by
    intro c
    constructor
    · intro h
      exact congrArg CfmlDate.secs h
    · intro h
      cases d
      simp only [instantOf, CfmlDate.mk.injEq]
      exact ⟨h, hnanos⟩
  have hoff := z.offsetSecsAt_range d.epochMillis
  have hsecs : d.secs = z.wallOf d - z.offsetSecsAt d.epochMillis := by simp [wallOf]
  by_cases hshown : minStamp ≤ z.wallOf d ∧ z.wallOf d ≤ maxStamp
  · rw [z.localIn_of_shown hshown]
    have hvalid := Clock.valid_ofTimestamp (z.wallOf d)
    have hstamp := Clock.timestamp_ofTimestamp (z.wallOf d)
    have hyears := (range_iff_year hvalid.lenient).1 (by rw [hstamp]; exact hshown)
    by_cases hyear : 100 ≤ (Clock.ofTimestamp (z.wallOf d)).year
    · rw [z.makeDateOf_of_year hvalid ⟨hyear, hyears.2⟩ hm, hinstant, hstamp,
        z.localToEpochSecs_wallOf_iff hshown]
      constructor
      · rintro ⟨hstd, hlater⟩
        exact ⟨hshown, hyear, hstd, hlater⟩
      · intro h
        exact ⟨h.standard, h.later⟩
    · refine ⟨fun h => ?_, fun h => absurd h.year hyear⟩
      have := z.makeDateOf_late hvalid ⟨hyears.1, by omega⟩ hm h
      omega
  · -- a date the library cannot show is written as the start of 1970
    refine ⟨fun h => ?_, fun h => absurd h.shown hshown⟩
    exfalso
    have hlocal :
      z.localIn d = 0 := by rw [localIn, ← wallOf, fromTimestamp, if_neg hshown, getD_none]
    rw [hlocal, z.makeDateOf_of_year (Clock.valid_ofTimestamp 0) (by decide) hm, hinstant,
      Clock.timestamp_ofTimestamp] at h
    have hnear := z.localToEpochSecs_near 0
    have hstamps := stamps
    omega

end Zone

end RustCfml.Serialize
