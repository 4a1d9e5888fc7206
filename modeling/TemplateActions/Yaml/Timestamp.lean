import TemplateActions.Number.Decimal
import TemplateActions.Value.Calendar
import TemplateActions.Yaml.Character
import TemplateActions.Yaml.Failure

/-!
Timestamps: a date, or a date and a time of day with an optional offset, by which the time is moved.
-/
namespace TemplateActions.Yaml.Timestamp

def digits? (least most : Nat) (input : List Char) : Option (Nat × List Char) :=
  let digits := (input.take most).takeWhile Decimal.isDigit
  if digits.length < least then none else some (Decimal.value digits, input.drop digits.length)

def char? (c : Char) (input : List Char) : Option (List Char) :=
  if input.head? = some c then some (input.drop 1) else none

/-- An offset in minutes; nothing for a time without one, and zero for the letter `Z`. -/
def offset? (input : List Char) : Option (Option Int) :=
  match input.dropWhile isSpace with
  | [] => if input.isEmpty then some none else none
  | ['Z'] => some none
  | sign :: rest =>
    if sign == '+' || sign == '-' then do
      let (hours, rest) ← digits? 1 2 rest
      let minutes ←
        match rest with
        | [] => some 0
        | c :: rest =>
          if c == ':' then (digits? 2 2 rest).bind fun (minutes, rest) =>
            if rest.isEmpty then some minutes else none
          else none
      let size : Int := (hours * 60 + minutes : Nat)
      return some (if sign == '-' then -size else size)
    else none

structure TimeOfDay where
  hour : Nat
  minute : Nat
  second : Nat
  fraction : List Char
  offset : Option Int

def time? (input : List Char) : Option TimeOfDay := do
  let (hour, rest) ← digits? 1 2 input
  let rest ← char? ':' rest
  let (minute, rest) ← digits? 2 2 rest
  let rest ← char? ':' rest
  let (second, rest) ← digits? 2 2 rest
  let (fraction, rest) := match rest with | '.' :: rest => Decimal.span rest | rest => ([], rest)
  let offset ← offset? rest
  return ⟨hour, minute, second, fraction, offset⟩

/-- The parts of a written timestamp. `padded` holds if month and day have two digits each. -/
structure Parts where
  date : Date
  padded : Bool
  time : Option TimeOfDay

/-- A letter or white space separates the time from the date. -/
def timeBehind? (input : List Char) : Option (Option TimeOfDay) :=
  match input with
  | [] => some none
  | c :: rest =>
    if c == 'T' || c == 't' then (time? rest).map some
    else if isSpace c then (time? (rest.dropWhile isSpace)).map some
    else none

def parts? (input : List Char) : Option Parts := do
  let (year, rest) ← digits? 4 4 input
  let rest ← char? '-' rest
  let (month, afterMonth) ← digits? 1 2 rest
  let rest' ← char? '-' afterMonth
  let (day, afterDay) ← digits? 1 2 rest'
  let time ← timeBehind? afterDay
  let padded := rest.length = afterMonth.length + 2 && rest'.length = afterDay.length + 2
  return ⟨⟨year, month, day⟩, padded, time⟩

/-- The first six digits of a fraction, rounded up by the seventh. -/
def microseconds (fraction : List Char) : Nat :=
  let digits := fraction.take 6
  let size := Decimal.value (digits ++ List.replicate (6 - digits.length) '0')
  match fraction.drop 6 with
  | next :: _ => if 4 < Decimal.digit next then size + 1 else size
  | [] => size

/-- The seconds by which a time is moved: against its offset, and for a fraction that is rounded up
to a whole second by one second in the direction of the offset. -/
def shift (offset : Option Int) (carried : Bool) : Int :=
  let second : Int := if carried then 1 else 0
  match offset with
  | none => second
  | some minutes => if minutes < 0 then -(minutes * 60) + second else -(minutes * 60 + second)

def dateTime (date : Date) (time : TimeOfDay) : Except Failure Value :=
  let micros := microseconds time.fraction
  let carried := micros = 1000000
  let t : DateTime := ⟨date, time.hour, time.minute, time.second, if carried then 0 else micros⟩
  if !t.isValid then .error .invalidDate
  else
    let seconds := shift time.offset carried
    if seconds = 0 then .ok (.dateTime t)
    else
      match t.add? seconds with
      | some t => .ok (.dateTime t)
      | none => .error .dateOutOfRange

def Parts.value (parts : Parts) : Except Failure Value :=
  match parts.time with
  | some time => dateTime parts.date time
  | none => if parts.date.isValid then .ok (.date parts.date) else .error .invalidDate

end TemplateActions.Yaml.Timestamp
