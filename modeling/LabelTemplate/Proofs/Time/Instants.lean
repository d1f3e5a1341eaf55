import LabelTemplate.Proofs.Outcome
import LabelTemplate.Time.Reader
import Mathlib.Tactic.Linarith
import Mathlib.Tactic.Ring

/-!
# Instants

How far two timestamps are apart.  A shift by a number of nanoseconds ends exactly
that far from its start, if it ends at all (`Timestamp.elapsed_addNanos?`).  The
start must be a timestamp whose fraction lies below two seconds, and each
timestamp that is read is one (`Pattern.nanos_of_read`).
-/

namespace LabelTemplate.Time

theorem Date.dayNumber_of_ofDayNumber? {n : Int} {d : Date} (h : Date.ofDayNumber? n = some d) :
    d.dayNumber = n := by
  unfold ofDayNumber? at h
  dsimp only at h
  generalize hyear : (if daysBeforeYear ((n * 400).fdiv 146097 + 1970 + 1) ≤ n then _ else _) = year
    at h
  unfold ofOrdinal? at h
  split at h
  · rename_i hrange
    cases h
    unfold dayNumber
    dsimp only
    omega
  · cases h

namespace Timestamp

/-- True in a leap second. -/
def IsLeap (t : Timestamp) : Prop := nanosPerSecond ≤ t.nanos

instance (t : Timestamp) : Decidable t.IsLeap := inferInstanceAs (Decidable (_ ≤ _))

/-- The nanoseconds from one timestamp to another.  The leap second that the first one is in, if it
is in one, lies between the two when the other one comes after it. -/
def elapsed (t u : Timestamp) : Int :=
  (u.unixSeconds - t.unixSeconds) * nanosPerSecond + (u.nanos - t.nanos) +
    if t.IsLeap ∧ t.unixSeconds < u.unixSeconds then nanosPerSecond else 0

/-- A number of seconds after a midnight. -/
theorem normalized?_eq_some {date : Date} {seconds : Int} {nanos : Nat} {u : Timestamp}
    (h : normalized? date seconds nanos = some u) :
    u.unixSeconds = date.dayNumber * secondsPerDay + seconds ∧ u.nanos = nanos := by
  obtain ⟨d, hd, rfl⟩ := Option.map_eq_some_iff.1 h
  have hrest : ((Int.emod seconds secondsPerDay).toNat : Int) = seconds % secondsPerDay :=
    Int.toNat_of_nonneg (Int.emod_nonneg _ (by decide))
  refine ⟨?_, rfl⟩
  unfold unixSeconds
  dsimp only
  rw [Date.dayNumber_of_ofDayNumber? hd, Int.fdiv_eq_ediv_of_nonneg _ (by decide), hrest]
  have hday := Int.mul_ediv_add_emod seconds secondsPerDay
  linarith

/-- What more nanoseconds than a second has carry over to the seconds. -/
theorem normalized?_carried {date : Date} {seconds nanos : Int} {u : Timestamp}
    (h : normalized? date (seconds + Int.fdiv nanos nanosPerSecond)
      (Int.emod nanos nanosPerSecond).toNat = some u) :
    u.unixSeconds = date.dayNumber * secondsPerDay + seconds + nanos / nanosPerSecond ∧
      (u.nanos : Int) = nanos % nanosPerSecond := by
  obtain ⟨hseconds, hnanos⟩ := normalized?_eq_some h
  rw [Int.fdiv_eq_ediv_of_nonneg _ (by decide)] at hseconds
  refine ⟨by rw [hseconds, add_assoc], ?_⟩
  rw [hnanos]
  exact Int.toNat_of_nonneg (Int.emod_nonneg _ (by decide))

/-- The whole seconds of a shift and what is left have its sign. -/
theorem tdiv_tmod_nanosPerSecond (delta : Int) :
    Int.tdiv delta nanosPerSecond * nanosPerSecond + Int.tmod delta nanosPerSecond = delta ∧
      (0 ≤ Int.tdiv delta nanosPerSecond ∧ 0 ≤ Int.tmod delta nanosPerSecond ∧
          Int.tmod delta nanosPerSecond < nanosPerSecond ∨
        Int.tdiv delta nanosPerSecond ≤ 0 ∧ Int.tmod delta nanosPerSecond ≤ 0 ∧
          -nanosPerSecond < Int.tmod delta nanosPerSecond) := by
  refine ⟨Int.tdiv_mul_add_tmod _ _, ?_⟩
  obtain hdelta | hdelta := Int.le_total 0 delta
  · exact .inl ⟨Int.tdiv_nonneg hdelta (by decide), Int.tmod_nonneg _ hdelta,
      Int.tmod_lt_of_pos _ (by decide)⟩
  · have hneg : 0 ≤ -delta := Int.neg_nonneg_of_nonpos hdelta
    have hwhole : 0 ≤ (-delta).tdiv nanosPerSecond := Int.tdiv_nonneg hneg (by decide)
    have hleast : 0 ≤ (-delta).tmod nanosPerSecond := Int.tmod_nonneg _ hneg
    have hmost : (-delta).tmod nanosPerSecond < nanosPerSecond := Int.tmod_lt_of_pos _ (by decide)
    rw [Int.neg_tdiv] at hwhole
    rw [Int.neg_tmod] at hleast hmost
    exact .inr (by omega)

/-- A shift ends as far from its start as it says. -/
theorem elapsed_addNanos? {t u : Timestamp} {delta : Int} (ht : t.nanos < 2 * nanosPerSecond)
    (h : t.addNanos? delta = some u) : t.elapsed u = delta := by
  obtain ⟨hsum, hsign⟩ := tdiv_tmod_nanosPerSecond delta
  have hstart : t.unixSeconds = t.date.dayNumber * secondsPerDay + t.seconds := rfl
  unfold addNanos? at h
  unfold elapsed IsLeap
  dsimp only at h
  generalize Int.tdiv delta nanosPerSecond = whole at h hsum hsign
  generalize Int.tmod delta nanosPerSecond = part at h hsum hsign
  unfold nanosPerSecond at *
  split at h
  · rename_i hplain
    obtain ⟨hseconds, hrest⟩ := normalized?_carried h
    rw [if_neg fun hleap => not_lt.2 hleap.1 hplain]
    unfold nanosPerSecond at *
    omega
  · rename_i hleap
    split at h
    · obtain ⟨hseconds, hrest⟩ := normalized?_carried h
      unfold nanosPerSecond at *
      rw [if_pos ⟨not_lt.1 hleap, by omega⟩]
      omega
    · split at h
      · obtain ⟨hseconds, hrest⟩ := normalized?_carried h
        unfold nanosPerSecond at *
        rw [if_neg (by omega)]
        omega
      · cases h
        rw [if_neg fun hlater => lt_irrefl _ hlater.2]
        unfold unixSeconds
        dsimp only
        omega

end Timestamp

/-! ## Fractions that are read -/

namespace Fields

/-- The fraction that was read, if one was, is less than a second. -/
def FractionBelow (f : Fields) : Prop := ∀ n, f.get? .nanos = some n → n < nanosPerSecond

section Kept

variable {f g : Fields} (hf : f.FractionBelow)

include hf

theorem FractionBelow.put {slot : Slot} {v : Int} (hv : slot = .nanos → v < nanosPerSecond)
    (h : f.put slot v = .ok g) : g.FractionBelow := by
  unfold Fields.put at h
  split at h
  · cases h
    intro n hn
    unfold get? at hn
    rw [List.lookup_cons] at hn
    split at hn
    · rename_i hslot
      cases hn
      exact hv (of_decide_eq_true hslot).symm
    · exact hf n hn
  · split at h
    · cases h
      exact hf
    · cases h

theorem FractionBelow.put_other {slot : Slot} {v : Int} (hslot : slot ≠ .nanos)
    (h : f.put slot v = .ok g) : g.FractionBelow :=
  hf.put (absurd · hslot) h

theorem FractionBelow.putWithin {slot : Slot} {least most v : Int}
    (hv : slot = .nanos → most < nanosPerSecond) (h : f.putWithin slot least most v = .ok g) :
    g.FractionBelow := by
  unfold Fields.putWithin at h
  split at h
  · cases h
  · exact hf.put (fun hslot => (by omega : v ≤ most).trans_lt (hv hslot)) h

theorem FractionBelow.store {field : NumberField} {v : Int} (h : f.store field v = .ok g) :
    g.FractionBelow := by
  cases field with
  | daysFromSunday | weekday | dialHour =>
    unfold Fields.store at h
    dsimp only at h
    split at h
    · cases h
    · exact hf.put_other (by decide) h
  | hour =>
    unfold Fields.store at h
    dsimp only at h
    split at h
    · cases h
    · obtain ⟨noon, hnoon, h⟩ := Outcome.bind_eq_ok.1 h
      exact (hf.put_other (by decide) hnoon).put_other (by decide) h
  | unixSeconds => exact hf.put_other (by decide) h
  | _ => exact hf.putWithin (by decide) h

/-- The time of day of fields whose fraction is less than a second. -/
theorem FractionBelow.nanos_timeOfDay {seconds nanos : Nat}
    (h : f.timeOfDay = .ok (seconds, nanos)) : nanos < 2 * nanosPerSecond := by
  unfold timeOfDay at h
  obtain ⟨half, -, h⟩ := Outcome.bind_eq_ok.1 h
  obtain ⟨hour, -, h⟩ := Outcome.bind_eq_ok.1 h
  obtain ⟨minute, -, h⟩ := Outcome.bind_eq_ok.1 h
  have hrest : ∀ fraction : Nat, fraction < nanosPerSecond → ∀ whole : Nat → Nat, ∀ second,
      (pure (if second = 60 then (whole 59, fraction + nanosPerSecond)
        else (whole second, fraction)) : Except TimestampFault (Nat × Nat)) = .ok (seconds, nanos) →
      nanos < 2 * nanosPerSecond := by
    intro fraction hfraction whole second h
    split at h <;> cases h <;> omega
  dsimp only at h
  split at h
  · cases h
  · rename_i n _ hnanos _
    have hlt := hf _ hnanos
    exact hrest n.toNat (by unfold nanosPerSecond at *; omega) _ _ h
  · exact hrest 0 (by decide) _ _ h

/-- What a number of seconds adds does not change the fraction. -/
theorem FractionBelow.addUnixSeconds {s : Int} (h : f.addUnixSeconds s = .ok g) :
    g.FractionBelow := by
  unfold Fields.addUnixSeconds at h
  obtain ⟨t, -, h⟩ := Outcome.bind_eq_ok.1 h
  have hrest : ∀ (t : Timestamp) (f : Fields), f.FractionBelow →
      (do
        let f ← f.store .year t.date.year
        let f ← f.store .ordinal t.date.ordinal
        let f ← f.store .hour t.hour
        f.store .minute t.minute) = .ok g → g.FractionBelow := by
    intro t f hf h
    obtain ⟨f₁, h₁, h⟩ := Outcome.bind_eq_ok.1 h
    obtain ⟨f₂, h₂, h⟩ := Outcome.bind_eq_ok.1 h
    obtain ⟨f₃, h₃, h⟩ := Outcome.bind_eq_ok.1 h
    exact (((hf.store h₁).store h₂).store h₃).store h
  dsimp only at h
  split at h
  · split at h
    · exact hrest _ _ hf h
    · split at h
      · obtain ⟨_, -, h⟩ := Outcome.bind_eq_ok.1 h
        exact hrest _ _ hf h
      · cases h
  · obtain ⟨f', hf', h⟩ := Outcome.bind_eq_ok.1 h
    exact hrest _ _ (hf.store hf') h

theorem FractionBelow.nanos_timestamp {t : Timestamp} (h : f.timestamp = .ok t) :
    t.nanos < 2 * nanosPerSecond := by
  unfold timestamp at h
  split at h
  · rename_i htime
    dsimp only at h
    split at h
    · cases h
      exact hf.nanos_timeOfDay htime
    · cases h
  · dsimp only at h
    split at h
    · cases h
    · split at h
      · cases h
      · obtain ⟨f', hf', h⟩ := Outcome.bind_eq_ok.1 h
        obtain ⟨date, -, h⟩ := Outcome.bind_eq_ok.1 h
        obtain ⟨⟨seconds, nanos⟩, htime, h⟩ := Outcome.bind_eq_ok.1 h
        cases h
        exact (hf.addUnixSeconds hf').nanos_timeOfDay htime
  · obtain ⟨date, -, h⟩ := Outcome.bind_eq_ok.1 h
    obtain ⟨⟨seconds, nanos⟩, htime, h⟩ := Outcome.bind_eq_ok.1 h
    cases h
    exact hf.nanos_timeOfDay htime

end Kept

end Fields

namespace Reading

open Scan

variable {r r' : Reading}

theorem below_of_storing {α : Type} {read : Except TimestampFault (Found α)}
    {store : α → Except TimestampFault Fields}
    (hstore : ∀ v f, store v = .ok f → f.FractionBelow) (h : storing read store = .ok r') :
    r'.1.FractionBelow := by
  obtain ⟨⟨v, rest⟩, -, h⟩ := Outcome.bind_eq_ok.1 h
  obtain ⟨f, hf, h⟩ := Outcome.bind_eq_ok.1 h
  cases h
  exact hstore v f hf

variable (hr : r.1.FractionBelow)

include hr

theorem below_of_readNumber {field : NumberField} (h : readNumber field r = .ok r') :
    r'.1.FractionBelow := by
  unfold readNumber at h
  dsimp only at h
  split at h <;> exact below_of_storing (fun v f hf => hr.store hf) h

theorem below_of_readName {field : NameField} (h : readName field r = .ok r') :
    r'.1.FractionBelow := by
  unfold readName at h
  dsimp only at h
  split at h
  · exact below_of_storing (fun v f hf => hr.store hf) h
  · exact below_of_storing (fun v f hf => hr.put_other (by decide) hf) h
  · split at h
    · cases h
    · split at h
      · obtain ⟨f, hf, h⟩ := Outcome.bind_eq_ok.1 h
        cases h
        exact hr.put_other (by decide) hf
      · obtain ⟨f, hf, h⟩ := Outcome.bind_eq_ok.1 h
        cases h
        exact hr.put_other (by decide) hf
      · cases h

theorem below_of_readOffset {form : ZoneForm} (h : readOffset form r = .ok r') :
    r'.1.FractionBelow := by
  unfold readOffset at h
  exact below_of_storing (fun v f hf => hr.put_other (by decide) hf) h

theorem below_of_readSimple {item : Item} (h : r.readSimple item = .ok r') :
    r'.1.FractionBelow := by
  cases item with
  | literal text =>
    unfold readSimple readLiteral at h
    dsimp only at h
    split at h
    · cases h
    · split at h
      · cases h
        exact hr
      · cases h
  | number field => exact below_of_readNumber hr h
  | name field => exact below_of_readName hr h
  | fraction =>
    unfold readSimple at h
    dsimp only at h
    split at h
    · exact below_of_storing (fun v f hf => hr.store hf) h
    · cases h
      exact hr
  | fixedFraction digits pointed =>
    cases pointed with
    | true =>
      unfold readSimple at h
      dsimp only at h
      split at h
      · exact below_of_storing (fun v f hf => hr.store hf) h
      · cases h
        exact hr
    | false => exact below_of_storing (fun v f hf => hr.store hf) h
  | zoneOffset form => exact below_of_readOffset hr h
  | blank | zoneName =>
    cases h
    exact hr
  | instant | unknown => cases h

theorem below_of_foldlM {items : List Item} (h : items.foldlM readSimple r = .ok r') :
    r'.1.FractionBelow :=
  Outcome.foldlM_keeps (P := fun r : Reading => r.1.FractionBelow)
    (fun _ _ _ _ hr hread => below_of_readSimple hr hread) hr h

theorem below_of_readItem {item : Item} (h : r.readItem item = .ok r') : r'.1.FractionBelow := by
  unfold readItem at h
  split at h
  · unfold readInstant at h
    obtain ⟨⟨f, cs⟩, hdate, h⟩ := Outcome.bind_eq_ok.1 h
    have hf := below_of_foldlM hr hdate
    dsimp -zeta only at h
    extract_lets readRest at h
    have hrest : ∀ rest, readRest rest = .ok r' → r'.1.FractionBelow := by
      intro rest h
      obtain ⟨⟨f', cs'⟩, htime, h⟩ := Outcome.bind_eq_ok.1 h
      have hf' := below_of_foldlM (r := (f, rest)) hf htime
      dsimp only at h
      split at h
      · obtain ⟨f₁, hf₁, h⟩ := Outcome.bind_eq_ok.1 h
        cases h
        exact hf'.put_other (by decide) hf₁
      · exact below_of_readOffset hf' h
    split at h
    · cases h
    · exact hrest _ h
    · exact hrest _ h
    · exact hrest _ h
    · cases h
  · exact below_of_readSimple hr h

end Reading

/-- The fraction of a timestamp that is read is less than two seconds. -/
theorem Pattern.nanos_of_read {p : Pattern} {text : String} {t : Timestamp}
    (h : p.read text = .ok t) : t.nanos < 2 * nanosPerSecond := by
  obtain ⟨⟨f, rest⟩, hfold, h⟩ := Outcome.bind_eq_ok.1 h
  have hf : f.FractionBelow :=
    Outcome.foldlM_keeps (P := fun r : Reading => r.1.FractionBelow)
      (fun item _ r r' hr hread => Reading.below_of_readItem hr hread)
      (fun n hn => by cases hn) hfold
  dsimp only at h
  split at h
  · cases h
  · exact hf.nanos_timestamp h

end LabelTemplate.Time
