/-
  TransitRouting.Proofs.Time.ClockText
  ────────────────────────────────────
  Reading a clock text undoes writing it.

  What a clock text may look like is said once, by the writings: numbers of two
  decimal digits for the hour, the minute and perhaps the second, each with the
  bytes that spell it.  A text is read if and only if some writing in range has
  exactly its bytes; so no other text of five or eight bytes is, whatever
  characters these bytes belong to.  The text of a time has the bytes of the writing
  with all three numbers.

  Main statements:

    • `Clock.readBytes_eq_ok_iff` — the bytes that are read, and as what;
    • `Clock.explains_of_readBytes` — the reason given for a refusal is true of
      the bytes;
    • `Time.toUTF8_clockText` — the bytes that are written;
    • `Time.ofClockText_inverts_clockText` — a text is read just if a writing in range
      spells it, what is read is written as the same text with its seconds, and what
      is written is read back.
-/
import TransitRouting.Proofs.Checks
import TransitRouting.Time.Clock

namespace TransitRouting

/-! ## §1. The bytes of a text. -/

/-- The loop puts what is left of the bytes behind what it has read. -/
theorem byteArray_toList_loop (bytes : ByteArray) (i : Nat) (read : List UInt8) :
    ByteArray.toList.loop bytes i read = read.reverse ++ bytes.data.toList.drop i := by
  fun_induction ByteArray.toList.loop bytes i read with
  | case1 i read hi ih =>
      have hlt : i < bytes.data.toList.length := hi
      have hbyte : bytes.get! i = bytes.data.toList[i] := by simp [ByteArray.get!, hi]
      calc ByteArray.toList.loop bytes (i + 1) (bytes.get! i :: read)
          = (bytes.get! i :: read).reverse ++ bytes.data.toList.drop (i + 1) := ih
        _ = read.reverse ++ bytes.get! i :: bytes.data.toList.drop (i + 1) := by
            rw [List.reverse_cons, List.append_assoc, List.singleton_append]
        _ = read.reverse ++ bytes.data.toList.drop i := by
            rw [hbyte, List.drop_eq_getElem_cons hlt]
  | case2 i read hi =>
      have hall : bytes.data.toList.length ≤ i := Nat.le_of_not_lt hi
      rw [List.drop_eq_nil_of_le hall, List.append_nil]

/-- The loop that lists the bytes lists those of the array. -/
theorem toUTF8_toList (s : String) : s.toUTF8.toList = s.toByteArray.data.toList := by
  show ByteArray.toList.loop s.toByteArray 0 [] = _
  rw [byteArray_toList_loop]
  rfl

theorem toUTF8_toList_append (s t : String) :
    (s ++ t).toUTF8.toList = s.toUTF8.toList ++ t.toUTF8.toList := by
  simp only [toUTF8_toList, String.toByteArray_append, ByteArray.toList_data_append]

/-- A text is what its bytes say. -/
theorem toUTF8_toList_inj {s t : String} : s.toUTF8.toList = t.toUTF8.toList ↔ s = t := by
  simp only [toUTF8_toList, Array.toList_inj, ← ByteArray.ext_iff, String.toByteArray_inj]

theorem toUTF8_toList_ofList (chars : List Char) :
    (String.ofList chars).toUTF8.toList = chars.flatMap String.utf8EncodeChar := by
  rw [toUTF8_toList, String.toByteArray_ofList, List.utf8Encode, List.toList_data_toByteArray]

namespace Clock

/-! ## §2. Writings. -/

/-- The byte of a decimal digit; zero has 48 in ASCII, and the others follow it. -/
def digitByte (d : Fin 10) : UInt8 := UInt8.ofNat (48 + d)

/-- The byte of a colon. -/
def colon : UInt8 := 58

/-- A number in two decimal digits. -/
structure Digits where
  /-- The digit that comes first. -/
  tens : Fin 10
  /-- The digit that comes last. -/
  units : Fin 10
deriving DecidableEq, Repr

namespace Digits

/-- The number. -/
def value (d : Digits) : Nat := d.tens * 10 + d.units

/-- The bytes that spell it. -/
def bytes (d : Digits) : List UInt8 := [digitByte d.tens, digitByte d.units]

/-- The digits of a number below a hundred. -/
def ofNat (n : Nat) (h : n < 100) : Digits := ⟨⟨n / 10, by omega⟩, ⟨n % 10, by omega⟩⟩

@[simp] theorem value_ofNat {n : Nat} (h : n < 100) : (ofNat n h).value = n := by
  show n / 10 * 10 + n % 10 = n
  omega

/-- A number has one pair of digits. -/
theorem ofNat_eq {n : Nat} {h : n < 100} {d : Digits} (hn : n = d.value) : ofNat n h = d := by
  obtain ⟨⟨t, ht⟩, ⟨u, hu⟩⟩ := d
  have hvalue : n = t * 10 + u := hn
  have htens : n / 10 = t := by omega
  have hunits : n % 10 = u := by omega
  simp only [ofNat, htens, hunits]

end Digits

/-- A clock text in its form: an hour and a minute, and perhaps a second. -/
structure Writing where
  /-- The digits of the hour. -/
  hour : Digits
  /-- The digits of the minute. -/
  minute : Digits
  /-- The digits of the second, if they are written. -/
  second? : Option Digits
deriving DecidableEq, Repr

namespace Writing

/-- The bytes that spell it: the numbers with colons between them. -/
def bytes (w : Writing) : List UInt8 :=
  w.hour.bytes ++ colon :: w.minute.bytes ++
    match w.second? with
    | none => []
    | some second => colon :: second.bytes

/-- The second that is meant. -/
def second (w : Writing) : Nat := w.second?.elim 0 Digits.value

/-- The seconds from midnight to what the clock reads. -/
def seconds (w : Writing) : Nat := w.hour.value * 3600 + w.minute.value * 60 + w.second

/-- The clock reads so at some time of the service day. -/
structure InRange (w : Writing) : Prop where
  /-- The hour comes before the second midnight. -/
  hour : w.hour.value ≤ 47
  /-- The minute is one of sixty. -/
  minute : w.minute.value ≤ 59
  /-- So is the second. -/
  second : w.second ≤ 59

end Writing

/-! ## §3. What is read. -/

theorem digit?_digitByte (d : Fin 10) : digit? (digitByte d) = some d.val := by
  revert d
  decide

/-- Only the bytes of digits have a value. -/
theorem exists_digitByte {b : UInt8} {n : Nat} (h : digit? b = some n) :
    ∃ d : Fin 10, digitByte d = b := by
  unfold digit? at h
  split at h
  · next hb =>
      refine ⟨⟨b.toNat - 48, by omega⟩, ?_⟩
      show UInt8.ofNat (48 + (b.toNat - 48)) = b
      rw [Nat.add_sub_cancel' hb.1, UInt8.ofNat_toNat]
  · cases h

theorem twoDigits?_digits (d : Digits) :
    twoDigits? (digitByte d.tens) (digitByte d.units) = some d.value := by
  rw [twoDigits?, digit?_digitByte, digit?_digitByte]
  rfl

theorem exists_digits {a b : UInt8} {n : Nat} (h : twoDigits? a b = some n) :
    ∃ d : Digits, d.bytes = [a, b] := by
  simp only [twoDigits?, Option.bind_eq_bind, Option.bind_eq_some_iff] at h
  obtain ⟨t, ht, u, hu, -⟩ := h
  obtain ⟨tens, htens⟩ := exists_digitByte ht
  obtain ⟨units, hunits⟩ := exists_digitByte hu
  exact ⟨⟨tens, units⟩, by rw [Digits.bytes, htens, hunits]⟩

theorem readField_digits (field : ClockField) (d : Digits) {n : Nat} :
    readField field (digitByte d.tens) (digitByte d.units) = .ok n ↔
      d.value ≤ field.greatest ∧ d.value = n := by
  rw [readField, twoDigits?_digits]
  by_cases h : field.greatest < d.value
  · simp [h, Nat.not_le.mpr h]
  · simp [h, Nat.le_of_not_lt h]

theorem readHourMinute_digits (hour minute : Digits) {r : Nat × Nat} :
    readHourMinute (digitByte hour.tens) (digitByte hour.units) colon
        (digitByte minute.tens) (digitByte minute.units) = .ok r ↔
      (hour.value ≤ 47 ∧ minute.value ≤ 59) ∧ (hour.value, minute.value) = r := by
  simp only [readHourMinute, Checks.bind_eq_ok, Checks.pure_eq_ok, readField_digits]
  constructor
  · rintro ⟨-, -, _, ⟨hhour, rfl⟩, _, ⟨hminute, rfl⟩, hr⟩
    exact ⟨⟨hhour, hminute⟩, hr⟩
  · rintro ⟨⟨hhour, hminute⟩, hr⟩
    exact ⟨(), rfl, _, ⟨hhour, rfl⟩, _, ⟨hminute, rfl⟩, hr⟩

/-- No reading of a clock is so late that it would not fit. -/
theorem ofClock_eq_iff {hour minute second : Nat} (hhour : hour ≤ 47) (hminute : minute ≤ 59)
    (hsecond : second ≤ 59) {t : Time} :
    Time.ofClock hour minute second = t ↔
      t.seconds = ((hour * 3600 + minute * 60 + second : Nat) : Int) := by
  have hfits : ((hour : Int) * 3600 + minute * 60 + second).toInt32.toInt =
      (hour : Int) * 3600 + minute * 60 + second :=
    Int32.toInt_ofInt_of_le (by omega) (by omega)
  rw [Time.ext_iff, eq_comm]
  simp only [Time.ofClock, Time.saturate_seconds, hfits]
  omega

/-- The bytes of a writing are read just if it is in range, as the time it means. -/
theorem readBytes_bytes (w : Writing) {t : Time} :
    readBytes w.bytes = .ok t ↔ w.InRange ∧ t.seconds = w.seconds := by
  rcases w with ⟨hour, minute, _ | second⟩
  -- Five bytes: the time of a second that is zero.
  · show (readHourMinute _ _ colon _ _ >>= fun r => pure (Time.ofClock r.1 r.2 0)) = _ ↔ _
    simp only [Checks.bind_eq_ok, Checks.pure_eq_ok, readHourMinute_digits]
    constructor
    · rintro ⟨_, ⟨⟨hhour, hminute⟩, rfl⟩, ht⟩
      have hsecond : 0 ≤ 59 := Nat.zero_le _
      exact ⟨⟨hhour, hminute, hsecond⟩, (ofClock_eq_iff hhour hminute hsecond).mp ht⟩
    · rintro ⟨⟨hhour, hminute, hsecond⟩, ht⟩
      exact ⟨_, ⟨⟨hhour, hminute⟩, rfl⟩, (ofClock_eq_iff hhour hminute hsecond).mpr ht⟩
  -- Eight bytes: the second is checked after the other two.
  · show (readHourMinute _ _ colon _ _ >>= fun r => expectColon .second colon >>= fun _ =>
      readField .second _ _ >>= fun n => pure (Time.ofClock r.1 r.2 n)) = _ ↔ _
    simp only [Checks.bind_eq_ok, Checks.pure_eq_ok, readHourMinute_digits, readField_digits]
    constructor
    · rintro ⟨_, ⟨⟨hhour, hminute⟩, rfl⟩, -, -, _, ⟨hsecond, rfl⟩, ht⟩
      exact ⟨⟨hhour, hminute, hsecond⟩, (ofClock_eq_iff hhour hminute hsecond).mp ht⟩
    · rintro ⟨⟨hhour, hminute, hsecond⟩, ht⟩
      exact ⟨_, ⟨⟨hhour, hminute⟩, rfl⟩, (), rfl, _, ⟨hsecond, rfl⟩,
        (ofClock_eq_iff hhour hminute hsecond).mpr ht⟩

theorem eq_colon {field : ClockField} {b : UInt8} {u : Unit} (h : expectColon field b = .ok u) :
    b = colon := by
  unfold expectColon at h
  split at h
  · assumption
  · cases h

theorem exists_digits_of_readField {field : ClockField} {a b : UInt8} {n : Nat}
    (h : readField field a b = .ok n) : ∃ d : Digits, d.bytes = [a, b] := by
  unfold readField at h
  split at h
  · cases h
  · next hdigits => exact exists_digits hdigits

theorem exists_digits_of_readHourMinute {h₁ h₂ c m₁ m₂ : UInt8} {r : Nat × Nat}
    (h : readHourMinute h₁ h₂ c m₁ m₂ = .ok r) :
    ∃ hour minute : Digits, [h₁, h₂, c, m₁, m₂] = hour.bytes ++ colon :: minute.bytes := by
  simp only [readHourMinute, Checks.bind_eq_ok] at h
  obtain ⟨_, hcolon, _, hhour, _, hminute, -⟩ := h
  obtain ⟨hour, hhour⟩ := exists_digits_of_readField hhour
  obtain ⟨minute, hminute⟩ := exists_digits_of_readField hminute
  exact ⟨hour, minute, by rw [hhour, hminute, eq_colon hcolon]; rfl⟩

/-- Only the bytes of writings are read. -/
theorem exists_writing {bytes : List UInt8} {t : Time} (h : readBytes bytes = .ok t) :
    ∃ w : Writing, bytes = w.bytes := by
  -- The cases are those of the reader: five bytes, eight, and any other number.
  unfold readBytes at h
  split at h
  · obtain ⟨_, hread, -⟩ := Checks.bind_eq_ok.mp h
    obtain ⟨hour, minute, hbytes⟩ := exists_digits_of_readHourMinute hread
    exact ⟨⟨hour, minute, none⟩, hbytes.trans (List.append_nil _).symm⟩
  · obtain ⟨_, hread, h⟩ := Checks.bind_eq_ok.mp h
    obtain ⟨_, hcolon, h⟩ := Checks.bind_eq_ok.mp h
    obtain ⟨_, hfield, -⟩ := Checks.bind_eq_ok.mp h
    obtain ⟨hour, minute, hbytes⟩ := exists_digits_of_readHourMinute hread
    obtain ⟨second, hsecond⟩ := exists_digits_of_readField hfield
    refine ⟨⟨hour, minute, some second⟩, ?_⟩
    show _ = hour.bytes ++ colon :: minute.bytes ++ colon :: second.bytes
    rw [← hbytes, hsecond, eq_colon hcolon]
    rfl
  · cases h

theorem readBytes_eq_ok_iff {bytes : List UInt8} {t : Time} :
    readBytes bytes = .ok t ↔
      ∃ w : Writing, bytes = w.bytes ∧ w.InRange ∧ t.seconds = w.seconds := by
  constructor
  · intro h
    obtain ⟨w, rfl⟩ := exists_writing h
    exact ⟨w, rfl, (readBytes_bytes w).mp h⟩
  · rintro ⟨w, rfl, hw⟩
    exact (readBytes_bytes w).mpr hw

/-! ## §4. Why nothing is read. -/

/-- The bytes where a field is looked for. -/
def fieldBytes (bytes : List UInt8) (field : ClockField) : List UInt8 :=
  (bytes.drop field.position).take 2

/-- The reason is true of the bytes: the field that it names is as it says. -/
def Explains (bytes : List UInt8) : TimeError → Prop
  | .shape => bytes.length ≠ 5 ∧ bytes.length ≠ 8
  | .missingColon before => bytes[before.position - 1]? ≠ some colon
  | .notDigits field => ∀ d : Digits, fieldBytes bytes field ≠ d.bytes
  | .outOfRange field => ∃ d : Digits, fieldBytes bytes field = d.bytes ∧ field.greatest < d.value
  | .negativeDuration => False

theorem explains_of_expectColon {bytes : List UInt8} {field : ClockField} {b : UInt8}
    {e : TimeError} (hb : bytes[field.position - 1]? = some b)
    (h : expectColon field b = .error e) : Explains bytes e := by
  unfold expectColon at h
  split at h
  · cases h
  · next hne =>
      cases h
      show bytes[field.position - 1]? ≠ some colon
      rw [hb]
      exact fun heq => hne (Option.some.inj heq)

theorem explains_of_readField {bytes : List UInt8} {field : ClockField} {a b : UInt8}
    {e : TimeError} (hab : fieldBytes bytes field = [a, b]) (h : readField field a b = .error e) :
    Explains bytes e := by
  unfold readField at h
  split at h
  · next hnone =>
      cases h
      -- Bytes that spell a number would have been read as one.
      intro d hd
      obtain ⟨rfl, rfl⟩ : a = digitByte d.tens ∧ b = digitByte d.units := by
        simpa [Digits.bytes] using hab.symm.trans hd
      rw [twoDigits?_digits] at hnone
      cases hnone
  · next n hn =>
      split at h
      · next hlt =>
          cases h
          obtain ⟨d, hd⟩ := exists_digits hn
          obtain ⟨rfl, rfl⟩ : digitByte d.tens = a ∧ digitByte d.units = b := by
            simpa [Digits.bytes] using hd
          obtain rfl : d.value = n := Option.some.inj ((twoDigits?_digits d).symm.trans hn)
          exact ⟨d, hab, hlt⟩
      · cases h

theorem explains_of_readHourMinute {bytes : List UInt8} {h₁ h₂ c m₁ m₂ : UInt8}
    {rest : List UInt8} {e : TimeError} (hbytes : bytes = h₁ :: h₂ :: c :: m₁ :: m₂ :: rest)
    (h : readHourMinute h₁ h₂ c m₁ m₂ = .error e) : Explains bytes e := by
  subst hbytes
  simp only [readHourMinute, Checks.bind_eq_error, Checks.pure_ne_error, and_false, exists_false,
    or_false] at h
  obtain hcolon | ⟨_, -, hhour | ⟨_, -, hminute⟩⟩ := h
  · exact explains_of_expectColon rfl hcolon
  · exact explains_of_readField rfl hhour
  · exact explains_of_readField rfl hminute

/-- The reason given for a refusal is true of the bytes. -/
theorem explains_of_readBytes {bytes : List UInt8} {e : TimeError}
    (h : readBytes bytes = .error e) : Explains bytes e := by
  unfold readBytes at h
  split at h
  · simp only [Checks.bind_eq_error, Checks.pure_ne_error, and_false, exists_false, or_false] at h
    exact explains_of_readHourMinute rfl h
  · simp only [Checks.bind_eq_error, Checks.pure_ne_error, and_false, exists_false, or_false] at h
    obtain hread | ⟨_, -, hcolon | ⟨_, -, hsecond⟩⟩ := h
    · exact explains_of_readHourMinute rfl hread
    · exact explains_of_expectColon rfl hcolon
    · exact explains_of_readField rfl hsecond
  · next hfive height =>
      cases h
      constructor
      · intro hlength
        match bytes, hlength with
        | [_, _, _, _, _], _ => exact hfive _ _ _ _ _ rfl
      · intro hlength
        match bytes, hlength with
        | [_, _, _, _, _, _, _, _], _ => exact height _ _ _ _ _ _ _ _ rfl

/-- A letter of two bytes, a colon and two digits are five bytes, but no clock text. -/
example : Time.ofClockText "é:30" = .error (.notDigits .hour) := by
  rw [Time.ofClockText, toUTF8_toList]
  decide

/-! ## §5. What is written. -/

theorem utf8EncodeChar_digitChar (d : Fin 10) :
    String.utf8EncodeChar (Nat.digitChar d) = [digitByte d] := by
  revert d
  decide

/-- A number below a hundred is written in two digits. -/
theorem twoDigits_eq {n : Nat} (h : n < 100) :
    twoDigits n = String.ofList [Nat.digitChar (n / 10), Nat.digitChar (n % 10)] := by
  unfold twoDigits
  split
  · next hlt =>
      -- One digit: the zero before it is its tens.
      rw [Nat.div_eq_of_lt hlt, Nat.mod_eq_of_lt hlt]
      show "0" ++ Nat.repr n = _
      rw [Nat.repr_eq_ofList_toDigits, Nat.toDigits_of_lt_base hlt]
      exact String.ofList_append.symm
  · next hge =>
      show Nat.repr n = _
      rw [Nat.repr_eq_ofList_toDigits, Nat.toDigits_of_base_le (by decide) (Nat.le_of_not_lt hge),
        Nat.toDigits_of_lt_base (by omega)]
      rfl

/-- Its text has the bytes of its digits. -/
theorem toUTF8_twoDigits {n : Nat} (h : n < 100) :
    (twoDigits n).toUTF8.toList = (Digits.ofNat n h).bytes := by
  have htens := utf8EncodeChar_digitChar (Digits.ofNat n h).tens
  have hunits := utf8EncodeChar_digitChar (Digits.ofNat n h).units
  rw [twoDigits_eq h, toUTF8_toList_ofList]
  show String.utf8EncodeChar _ ++ (String.utf8EncodeChar _ ++ []) = _
  rw [List.append_nil]
  exact congrArg₂ (· ++ ·) htens hunits

namespace Writing

/-- The writing of a number of seconds less than two days, with its second. -/
def ofSeconds (n : Nat) (h : n < 172800) : Writing :=
  ⟨.ofNat (n / 3600) (by omega), .ofNat (n % 3600 / 60) (by omega),
    some (.ofNat (n % 60) (by omega))⟩

/-- The writing with its second, if that was left out. -/
def complete (w : Writing) : Writing := { w with second? := some (w.second?.getD ⟨0, 0⟩) }

theorem seconds_ofSeconds {n : Nat} (h : n < 172800) : (ofSeconds n h).seconds = n := by
  simp only [seconds, second, ofSeconds, Option.elim_some, Digits.value_ofNat]
  omega

theorem inRange_ofSeconds {n : Nat} (h : n < 172800) : (ofSeconds n h).InRange := by
  constructor <;> simp only [second, ofSeconds, Option.elim_some, Digits.value_ofNat] <;> omega

theorem InRange.seconds_lt {w : Writing} (hw : w.InRange) : w.seconds < 172800 := by
  have hhour := hw.hour
  have hminute := hw.minute
  have hsecond := hw.second
  unfold seconds
  omega

/-- The seconds of a writing in range, written out, are that writing with its second. -/
theorem InRange.ofSeconds_seconds {w : Writing} (hw : w.InRange) :
    ofSeconds w.seconds hw.seconds_lt = w.complete := by
  have hminute := hw.minute
  have hsecond := hw.second
  have hhours : w.seconds / 3600 = w.hour.value := by
    unfold seconds
    omega
  have hminutes : w.seconds % 3600 / 60 = w.minute.value := by
    unfold seconds
    omega
  have hseconds : w.seconds % 60 = (w.second?.getD ⟨0, 0⟩).value := by
    -- A second that was left out counts as the one that is filled in.
    have hmeant : w.second = (w.second?.getD ⟨0, 0⟩).value := by
      unfold Writing.second
      cases w.second? <;> rfl
    rw [← hmeant]
    unfold seconds
    omega
  simp only [ofSeconds, complete, Digits.ofNat_eq hhours, Digits.ofNat_eq hminutes,
    Digits.ofNat_eq hseconds]

/-- What the bytes of a complete writing have more. -/
theorem bytes_complete (w : Writing) :
    w.complete.bytes = w.bytes ++ (if w.second? = none then ":00" else "").toUTF8.toList := by
  obtain ⟨hour, minute, _ | second⟩ := w
  · have hzeros : ":00".toUTF8.toList = colon :: (⟨0, 0⟩ : Digits).bytes := by
      rw [toUTF8_toList]
      decide
    rw [if_pos rfl, hzeros]
    show hour.bytes ++ colon :: minute.bytes ++ _ = hour.bytes ++ colon :: minute.bytes ++ [] ++ _
    rw [List.append_nil]
    rfl
  · rw [if_neg (Option.some_ne_none second), toUTF8_toList]
    exact (List.append_nil _).symm

end Writing

theorem toUTF8_reading {n : Nat} (h : n < 172800) :
    (reading n).toUTF8.toList = (Writing.ofSeconds n h).bytes := by
  have hcolon : ":".toUTF8.toList = [colon] := by
    rw [toUTF8_toList]
    decide
  have hhour : n / 3600 < 100 := by omega
  have hminute : n % 3600 / 60 < 100 := by omega
  have hsecond : n % 60 < 100 := by omega
  unfold reading
  simp only [toUTF8_toList_append, hcolon, toUTF8_twoDigits hhour, toUTF8_twoDigits hminute,
    toUTF8_twoDigits hsecond]
  rfl

end Clock

namespace Time

open Clock

/-- The text of a time up to 47:59:59 has the bytes of its writing. -/
theorem toUTF8_clockText {t : Time} {n : Nat} (hn : t.seconds = n) (h : n < 172800) :
    t.clockText.toUTF8.toList = (Writing.ofSeconds n h).bytes := by
  -- No sign is written, and the absolute number of seconds is the number itself.
  have habs : t.seconds.natAbs = n := by omega
  rw [← toUTF8_reading h, clockText, if_neg (by omega), habs, String.empty_append]

/-! ## §6. Reading and writing. -/

theorem ofClockText_eq_ok_iff {s : String} {t : Time} :
    ofClockText s = .ok t ↔
      ∃ w : Writing, s.toUTF8.toList = w.bytes ∧ w.InRange ∧ t.seconds = w.seconds :=
  readBytes_eq_ok_iff

/-- A text that was read comes back, with its second. -/
theorem clockText_of_writing {s : String} {w : Writing} {t : Time} (hs : s.toUTF8.toList = w.bytes)
    (hw : w.InRange) (ht : t.seconds = w.seconds) :
    t.clockText = s ++ if w.second? = none then ":00" else "" := by
  rw [← toUTF8_toList_inj, toUTF8_toList_append, toUTF8_clockText ht hw.seconds_lt,
    hw.ofSeconds_seconds, Writing.bytes_complete, hs]

theorem ofClockText_clockText {t : Time} (hleast : 0 ≤ t.seconds)
    (hgreatest : t.seconds ≤ 47 * 3600 + 59 * 60 + 59) : ofClockText t.clockText = .ok t := by
  have hn : t.seconds = t.seconds.toNat := (Int.toNat_of_nonneg hleast).symm
  have hlt : t.seconds.toNat < 172800 := by omega
  refine ofClockText_eq_ok_iff.mpr ⟨_, toUTF8_clockText hn hlt, Writing.inRange_ofSeconds hlt, ?_⟩
  rw [Writing.seconds_ofSeconds]
  exact hn

/-- The texts that are read are those that a writing in range spells.  What is read is the
hour, the minute and the second that were written; its own text is the one that was read,
with its second if that was left out.  And the text of every time from midnight to 47:59:59
is read as that time. -/
theorem ofClockText_inverts_clockText :
    (∀ s : String, (∃ t, ofClockText s = .ok t) ↔
        ∃ w : Writing, s.toUTF8.toList = w.bytes ∧ w.InRange) ∧
      (∀ (s : String) (w : Writing) (t : Time), s.toUTF8.toList = w.bytes → ofClockText s = .ok t →
        t.seconds = w.seconds ∧ t.clockText = s ++ if w.second? = none then ":00" else "") ∧
      ∀ t : Time, 0 ≤ t.seconds → t.seconds ≤ 47 * 3600 + 59 * 60 + 59 →
        ofClockText t.clockText = .ok t := by
  refine ⟨?_, ?_, ?_⟩
  · intro s
    constructor
    · rintro ⟨t, h⟩
      obtain ⟨w, hs, hw, -⟩ := ofClockText_eq_ok_iff.mp h
      exact ⟨w, hs, hw⟩
    · rintro ⟨w, hs, hw⟩
      have hlt := hw.seconds_lt
      exact ⟨⟨w.seconds, by omega, by omega⟩, ofClockText_eq_ok_iff.mpr ⟨w, hs, hw, rfl⟩⟩
  · intro s w t hs h
    -- The writing is the only one with these bytes, for they are read as its time.
    have hread : readBytes w.bytes = .ok t := hs ▸ h
    obtain ⟨hw, ht⟩ := (readBytes_bytes w).mp hread
    exact ⟨ht, clockText_of_writing hs hw ht⟩
  · intro t hleast hgreatest
    exact ofClockText_clockText hleast hgreatest

/-- Five past two in the night that follows the service day, written without a second. -/
theorem ofClockText_afterMidnight :
    (∃ t, ofClockText "26:05" = .ok t) ∧
      ∀ t, ofClockText "26:05" = .ok t →
        t.seconds = 93900 ∧ t.clockText = "26:05:00" ∧ ofClockText "26:05:00" = .ok t := by
  obtain ⟨hread, hwritten, hback⟩ := ofClockText_inverts_clockText
  have hs : "26:05".toUTF8.toList = (⟨⟨2, 6⟩, ⟨0, 5⟩, none⟩ : Writing).bytes := by
    rw [toUTF8_toList]
    decide
  refine ⟨(hread _).mpr ⟨_, hs, by decide, by decide, by decide⟩, ?_⟩
  intro t h
  obtain ⟨hseconds, htext⟩ := hwritten _ _ t hs h
  have hsame : t.clockText = "26:05:00" := htext
  have hvalue : t.seconds = 93900 := hseconds
  exact ⟨hvalue, hsame, hsame ▸ hback t (by omega) (by omega)⟩

end Time

end TransitRouting
