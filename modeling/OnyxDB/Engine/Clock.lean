import Mathlib.Order.Monotone.Basic

/-! The wall clock as the sequence of its readings to come. -/

namespace OnyxDB.Engine

/-- `seconds n` is what the `n`-th call of `unix_seconds` from now on returns; `nanos` likewise for
the readings that seed the choice of a random victim. -/
structure Clock where
  seconds : Nat → Nat
  nanos : Nat → Nat

namespace Clock

def advance (clock : Clock) (readings : Nat) : Clock :=
  { clock with seconds := fun index => clock.seconds (index + readings) }

def now (clock : Clock) : Nat := clock.seconds 0

def tick (clock : Clock) : Clock := clock.advance 1

/-- The clock never goes back. -/
def Nondecreasing (clock : Clock) : Prop := Monotone clock.seconds

/-- Every reading is `time`. -/
def Fixed (clock : Clock) (time : Nat) : Prop := ∀ index, clock.seconds index = time

def constant (time : Nat) : Clock := ⟨fun _ => time, fun _ => 0⟩

/-- `later` is `clock` after some of its readings have been taken. -/
def Leads (clock later : Clock) : Prop :=
  ∃ readings, later.seconds = fun index => clock.seconds (index + readings)

/-- `reading` was taken between `clock` and `later`. -/
def Shows (clock later : Clock) (reading : Nat) : Prop :=
  ∃ index readings, index ≤ readings ∧ reading = clock.seconds index ∧
    later.seconds = fun next => clock.seconds (next + readings)

/-- No reading between `clock` and `later` is past `time`. -/
def Upto (clock later : Clock) (time : Nat) : Prop := ∀ reading, clock.Shows later reading → reading ≤ time

theorem Leads.refl (clock : Clock) : clock.Leads clock := ⟨0, rfl⟩

theorem Leads.trans {first second third : Clock} (before : first.Leads second)
    (after : second.Leads third) : first.Leads third := by
  obtain ⟨early, sameSecond⟩ := before
  obtain ⟨late, sameThird⟩ := after
  refine ⟨late + early, ?_⟩
  rw [sameThird, sameSecond]
  funext index
  exact congrArg first.seconds (Nat.add_assoc index late early)

theorem leads_tick (clock : Clock) : clock.Leads clock.tick := ⟨1, rfl⟩

theorem shows_tick (clock : Clock) : clock.Shows clock.tick clock.now := ⟨0, 1, by simp, rfl, rfl⟩

theorem Shows.leads {clock later : Clock} {reading : Nat} (shows : clock.Shows later reading) :
    clock.Leads later := by
  obtain ⟨_, readings, _, _, same⟩ := shows
  exact ⟨readings, same⟩

theorem Shows.extend {clock middle later : Clock} {reading : Nat}
    (shows : clock.Shows middle reading) (leads : middle.Leads later) :
    clock.Shows later reading := by
  obtain ⟨index, readings, within, taken, same⟩ := shows
  obtain ⟨more, sameLater⟩ := leads
  refine ⟨index, more + readings, by omega, taken, ?_⟩
  rw [sameLater, same]
  funext next
  exact congrArg clock.seconds (Nat.add_assoc next more readings)

theorem Leads.shows {clock middle later : Clock} {reading : Nat} (leads : clock.Leads middle)
    (shows : middle.Shows later reading) : clock.Shows later reading := by
  obtain ⟨before, same⟩ := leads
  obtain ⟨index, readings, within, taken, sameLater⟩ := shows
  refine ⟨index + before, readings + before, by omega, ?_, ?_⟩
  · rw [taken, same]
  · rw [sameLater, same]
    funext next
    exact congrArg clock.seconds (Nat.add_assoc next readings before)

theorem Shows.now_le {clock later : Clock} {reading : Nat} (shows : clock.Shows later reading)
    (steady : clock.Nondecreasing) : clock.now ≤ reading := by
  obtain ⟨index, _, _, rfl, _⟩ := shows
  exact steady (Nat.zero_le index)

theorem Shows.le_now {clock later : Clock} {reading : Nat} (shows : clock.Shows later reading)
    (steady : clock.Nondecreasing) : reading ≤ later.now := by
  obtain ⟨index, readings, within, rfl, same⟩ := shows
  rw [now, same]
  exact steady (by omega)

theorem Upto.start {clock middle later : Clock} {time : Nat} (upto : clock.Upto later time)
    (leads : middle.Leads later) : clock.Upto middle time :=
  fun reading shows => upto reading (shows.extend leads)

theorem Upto.rest {clock middle later : Clock} {time : Nat} (upto : clock.Upto later time)
    (leads : clock.Leads middle) : middle.Upto later time :=
  fun reading shows => upto reading (leads.shows shows)

theorem Leads.nondecreasing {clock later : Clock} (leads : clock.Leads later)
    (steady : clock.Nondecreasing) : later.Nondecreasing := by
  obtain ⟨readings, same⟩ := leads
  intro first second order
  rw [same]
  exact steady (Nat.add_le_add_right order readings)

theorem Leads.now_le {clock later : Clock} (leads : clock.Leads later)
    (steady : clock.Nondecreasing) : clock.now ≤ later.now := by
  obtain ⟨readings, same⟩ := leads
  rw [now, now, same]
  exact steady (Nat.zero_le _)

theorem Leads.fixed {clock later : Clock} {time : Nat} (leads : clock.Leads later)
    (fixed : clock.Fixed time) : later.Fixed time := by
  obtain ⟨readings, same⟩ := leads
  intro index
  rw [same]
  exact fixed _

/-- A clock that never goes back has shown nothing past its present reading. -/
theorem Nondecreasing.upto {clock later : Clock} {time : Nat} (steady : clock.Nondecreasing)
    (order : later.now ≤ time) : clock.Upto later time :=
  fun _ shows => (shows.le_now steady).trans order

theorem Fixed.upto {clock later : Clock} {time : Nat} (fixed : clock.Fixed time) :
    clock.Upto later time := by
  rintro reading ⟨index, _, _, rfl, _⟩
  exact (fixed index).le

theorem Fixed.now {clock : Clock} {time : Nat} (fixed : clock.Fixed time) : clock.now = time :=
  fixed 0

theorem Fixed.nondecreasing {clock : Clock} {time : Nat} (fixed : clock.Fixed time) :
    clock.Nondecreasing := by
  intro first second _
  rw [fixed first, fixed second]

end Clock

end OnyxDB.Engine
