import SmsRelay.Time.Rfc3339

/-!
# Message ids

A message is named after the instant it was created at: `msg-`, the date and time without
separators, a point and nine digits of the second. Ids of instants between the years 0 and 9999
sort as text in the order of time.
-/

namespace SmsRelay

/-- The id of a message created at an instant. -/
def messageId (t : Instant) : String :=
  String.ofList ("msg-".toList ++ Rfc3339.yearText t.date.year ++ padded 2 t.date.month
    ++ padded 2 t.date.day ++ padded 2 t.hour ++ padded 2 t.minute ++ padded 2 t.second
    ++ '.' :: padded 9 t.fraction)

end SmsRelay
