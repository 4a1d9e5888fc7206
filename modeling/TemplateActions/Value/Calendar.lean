import TemplateActions.Value.Basic

/-!
The calendar of the years 1 to 9999. Days are numbered from the first day of year 1, so that a date
and a time of day can be moved by a number of seconds.
-/
namespace TemplateActions

namespace Calendar

def isLeapYear (year : Nat) : Bool := year % 4 = 0 && (year % 100 != 0 || year % 400 = 0)

def daysInMonth (year month : Nat) : Nat :=
  if month = 2 then (if isLeapYear year then 29 else 28)
  else if month = 4 || month = 6 || month = 9 || month = 11 then 30
  else 31

def daysBeforeYear (year : Nat) : Nat :=
  let years := year - 1
  years * 365 + years / 4 - years / 100 + years / 400

def daysBeforeMonth (year : Nat) : (month : Nat) → Nat
  | 0 | 1 => 0
  | month + 2 => daysBeforeMonth year (month + 1) + daysInMonth year (month + 1)

def secondsPerDay : Nat := 86400

end Calendar

namespace Date

def isValid (d : Date) : Bool :=
  1 ≤ d.year && d.year ≤ 9999 && 1 ≤ d.month && d.month ≤ 12 &&
    1 ≤ d.day && d.day ≤ Calendar.daysInMonth d.year d.month

/-- The number of days from the first day of year 1. -/
def number (d : Date) : Nat :=
  Calendar.daysBeforeYear d.year + Calendar.daysBeforeMonth d.year d.month + d.day - 1

def ofNumber? (n : Nat) : Option Date :=
  let guess := n / 366 + 1
  let year? := (List.range 30).reverse.find? fun k => Calendar.daysBeforeYear (guess + k) ≤ n
  let year := guess + year?.getD 0
  let inYear := n - Calendar.daysBeforeYear year
  let month :=
    ((List.range 12).filter fun k => Calendar.daysBeforeMonth year (k + 1) ≤ inYear).length
  let date : Date := ⟨year, month, inYear - Calendar.daysBeforeMonth year month + 1⟩
  if date.isValid then some date else none

end Date

namespace DateTime

def isValid (t : DateTime) : Bool := t.date.isValid && t.hour < 24 && t.minute < 60 && t.second < 60

def seconds (t : DateTime) : Nat :=
  t.date.number * Calendar.secondsPerDay + t.hour * 3600 + t.minute * 60 + t.second

def add? (t : DateTime) (seconds : Int) : Option DateTime :=
  match (t.seconds : Int) + seconds with
  | .ofNat n =>
    let inDay := n % Calendar.secondsPerDay
    (Date.ofNumber? (n / Calendar.secondsPerDay)).map fun date =>
      ⟨date, inDay / 3600, inDay / 60 % 60, inDay % 60, t.microsecond⟩
  | .negSucc _ => none

end DateTime
end TemplateActions
